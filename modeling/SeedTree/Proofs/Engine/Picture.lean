import SeedTree.Proofs.Engine.Barred

/- Pictures: what a store shows at each path when no world hides anything, up to what nodes remember
   of their reading. Moves that only read leave a picture as it is, and every other move changes it
   at one path. -/
namespace SeedTree

abbrev Picture := String → Except Failure (Option Node)

namespace Picture

def put (v : Picture) (path : String) (found : Option Node) : Picture := fun other =>
  if other = path then .ok found else v other

theorem put_put (v : Picture) (path : String) (first second : Option Node) :
    (v.put path first).put path second = v.put path second := by
  funext other
  unfold put
  split <;> rfl

def walk (v : Picture) (m : Materializer) (world : World) : List String → Node → Except Failure Node
  | [], here => .ok here
  | name :: more, here =>
    if !here.isFolder then .error (.notADirectory here.path)
    else (v (Path.join here.path name)).bind fun
      | none => .error (.missing (Path.join here.path name))
      | some child => (m.sees child world).bind fun visible =>
        if visible then walk v m world more child
        else .error (.missing (Path.join here.path name))

def resolve (v : Picture) (m : Materializer) (world : World) (path : String) :
    Except Failure Node :=
  (v Path.root).bind fun
    | none => .error (.missing Path.root)
    | some top => v.walk m world (Path.components path) top

end Picture

def Materializer.Depicts (m : Materializer) (v : Picture) (s : Store) : Prop :=
  ∀ path, Path.IsNormal path → Agree (Option.Rel (Node.Like m)) (v path) (m.shows s path)

variable {m : Materializer} {scope : Scope} {s t : Store} {n k : Node} {v : Picture} {path : String}

theorem Picture.of_walk_cons {world : World} {name : String} {more : List String} {here : Node}
    (walks : v.walk m world (name :: more) here = .ok n) : here.isFolder = true ∧
      ∃ child, v (Path.join here.path name) = .ok (some child) ∧ m.sees child world = .ok true ∧
        v.walk m world more child = .ok n := by
  unfold Picture.walk at walks
  split at walks
  · cases walks
  · rename_i isFolder
    obtain ⟨below, shown, walks⟩ := of_bind_ok walks
    cases below with
    | none => cases walks
    | some child =>
      obtain ⟨visible, seen, walks⟩ := of_bind_ok walks
      split at walks
      · rename_i visible
        exact ⟨by simpa using isFolder, child, shown, visible ▸ seen, walks⟩
      · cases walks

theorem Node.Like.symm (like : n.Like m k) : k.Like m n where
  place := ⟨like.place.path.symm, like.place.name.symm, like.place.parent.symm, like.place.id.symm⟩
  depth := like.depth.symm
  kind := like.kind.symm
  size := like.size.symm
  upload := like.upload.symm
  sees := fun world => (like.sees world).symm

theorem Agree.of_eq_ok {α β : Type} {related : α → β → Prop} {y : Except Failure β} {a : α}
    (agree : Agree related (.ok a) y) : ∃ b, y = .ok b ∧ related a b := by
  cases y with
  | error other => exact agree.elim
  | ok b => exact ⟨b, rfl, agree⟩

theorem Agree.of_eq_error {α β : Type} {related : α → β → Prop}
    {y : Except Failure β} {failure : Failure}
    (agree : Agree related (.error failure) y) : y = .error failure := by
  cases y with
  | error other => rw [show failure = other from agree]
  | ok b => exact agree.elim

section Showing

variable (wf : s.WellFormed scope m.parameters)

include wf

theorem Store.WellFormed.shows_join {folder name : String} (normal : Path.IsNormal folder)
    (named : Path.IsName name) :
    m.shows s (Path.join folder name) = (m.shows s folder).bind fun
      | none => .ok none
      | some here => if here.isFolder then m.lookup s here name else .ok none := by
  obtain ⟨top, root⟩ := wf.root
  rw [m.shows_root root, m.shows_root root, Path.components_join normal named, m.view_append]
  congr 1
  funext found
  cases found with
  | none => rfl
  | some here =>
    cases isFolder : here.isFolder with
    | false => simp only [m.view_cons_file s isFolder, isFolder, Bool.false_eq_true, if_false]
    | true =>
      simp only [m.view_cons s isFolder, isFolder, if_true]
      cases m.lookup s here name with
      | error failure => rfl
      | ok found => cases found <;> rfl

theorem Store.WellFormed.shown_settled (normal : Path.IsNormal path)
    (shown : m.shows s path = .ok (some n)) : n.path = path ∧ s.Settled n := by
  induction normal using Path.IsNormal.induct generalizing n with
  | top =>
    obtain ⟨top, root⟩ := wf.root
    rw [m.shows_root root, Path.components_root] at shown
    cases shown
    obtain ⟨holds, place⟩ := wf.holds root
    exact ⟨place, wf.settled holds⟩
  | below folder name normal named ih =>
    rw [wf.shows_join normal named] at shown
    obtain ⟨found, above, shown⟩ := of_bind_ok shown
    cases found with
    | none => cases shown
    | some here =>
      obtain ⟨place, settled⟩ := ih above
      simp only at shown
      split at shown
      · rw [← place]
        exact wf.lookup_settled settled shown
      · cases shown

theorem Store.WellFormed.shows_open {folder name : String} (normal : Path.IsNormal folder)
    (named : Path.IsName name) (above : s.HoldsOpen folder) :
    m.shows s (Path.join folder name) = .ok (s.record? (Path.join folder name)) := by
  obtain ⟨host, there, isFolder, ready⟩ := above
  rw [wf.shows_join normal named, wf.shows_record normal there]
  simp only [Except.bind, isFolder, if_true]
  rw [m.lookup_generated s ready, (wf.holds there).2]

end Showing

namespace Materializer.Depicts

theorem self (m : Materializer) (s : Store) : m.Depicts (m.shows s) s :=
  fun _ _ => Agree.self fun found _ => .refl found

section Resolving

variable (wf : s.WellFormed scope m.parameters) (depicts : m.Depicts v s)

include wf depicts

theorem walk {world : World} {names : List String} (valid : ∀ name ∈ names, Path.IsName name)
    (like : n.Like m k) (shown : m.shows s k.path = .ok (some k)) (normal : Path.IsNormal k.path) :
    Agree (Node.Like m) (v.walk m world names n) (m.walk s world names k) := by
  induction names generalizing n k with
  | nil => exact like
  | cons name more ih =>
    obtain ⟨named, valid⟩ := List.forall_mem_cons.mp valid
    have kind := like.isFolder
    have place := like.place.path
    unfold Picture.walk Materializer.walk
    cases isFolder : n.isFolder with
    | false =>
      simp only [kind, isFolder, place, Bool.not_false, if_true]
      rfl
    | true =>
      have next := wf.shows_join normal named
      rw [shown] at next
      simp only [Except.bind, kind, isFolder, if_true] at next
      have known := depicts _ (Path.isNormal_join normal named)
      rw [next] at known
      simp only [kind, isFolder, Bool.not_true, Bool.false_eq_true, if_false, ← place]
      cases found : m.lookup s k name with
      | error failure =>
        rw [found] at known
        rw [known.eq_error]
        rfl
      | ok child =>
        rw [found] at known next
        obtain ⟨pictured, same, rel⟩ := known.of_ok
        rw [same]
        cases rel with
        | none => rfl
        | @some child child' like' =>
          have below := wf.shown_settled (Path.isNormal_join normal named) next
          have shown' : m.shows s child'.path = .ok (some child') := by rw [below.1, next]
          simp only [Except.bind, like'.sees]
          cases m.sees child world with
          | error failure => rfl
          | ok visible =>
            cases visible with
            | false => rfl
            | true => exact ih valid like' shown' below.2.normal

theorem resolve (world : World) (normal : Path.IsNormal path) :
    Agree (Node.Like m) (v.resolve m world path) (m.resolved s world path) := by
  obtain ⟨top, root⟩ := wf.root
  obtain ⟨holds, place⟩ := wf.holds root
  have shown := wf.shows_record Path.isNormal_root root
  have known := depicts Path.root Path.isNormal_root
  rw [shown] at known
  obtain ⟨found, same, rel⟩ := known.of_ok
  cases rel with
  | some like =>
    rw [Picture.resolve, Materializer.resolved, same, root]
    have here : m.shows s top.path = .ok (some top) := by rw [place, shown]
    exact depicts.walk wf normal.components.1 like here (by rw [place]; exact Path.isNormal_root)

theorem record {folder name : String} (normal : Path.IsNormal folder) (named : Path.IsName name)
    (above : s.HoldsOpen folder) : ∃ found, v (Path.join folder name) = .ok found ∧
      Option.Rel (Node.Like m) found (s.record? (Path.join folder name)) := by
  have known := depicts _ (Path.isNormal_join normal named)
  rw [wf.shows_open normal named above] at known
  exact known.of_ok

end Resolving

theorem reads {may : Deed → Prop} (depicts : m.Depicts v s) (within : m.worlds.Within scope)
    (wf : s.WellFormed scope m.parameters) (moves : Moves m scope may s t)
    (reads : ∀ deed, may deed → deed.Reads) : m.Depicts v t := by
  intro path normal
  obtain ⟨top, root⟩ := wf.root
  obtain ⟨holds, place⟩ := wf.holds root
  obtain ⟨top', root', _, alike⟩ := moves.read within reads wf holds
  have known := depicts path normal
  rw [m.shows_root root] at known
  rw [place] at root'
  rw [m.shows_root root']
  refine Agree.trans ?_ known (alike (Path.components path) normal.components.1)
  rintro a b c (left | _) (right | _)
  · exact .some (left.trans right)
  · exact .none

theorem put (depicts : m.Depicts v s) {found : Option Node}
    (elsewhere : ∀ other, Path.IsNormal other → other ≠ path → m.shows t other = m.shows s other)
    (here : Agree (Option.Rel (Node.Like m)) (.ok found) (m.shows t path)) :
    m.Depicts (v.put path found) t := by
  intro other normal
  unfold Picture.put
  by_cases same : other = path
  · rw [if_pos same, same]
    exact here
  · rw [if_neg same, elsewhere other normal same]
    exact depicts other normal

end Materializer.Depicts

section Changing

variable (wf : s.WellFormed scope m.parameters) (wf' : t.WellFormed scope m.parameters)

include wf wf'

theorem shows_elsewhere (records : ∀ other, other ≠ path → t.record? other = s.record? other)
    (below : ∀ name, Path.IsName name →
      m.shows t (Path.join path name) = m.shows s (Path.join path name)) {other : String}
    (normal' : Path.IsNormal other) (apart : other ≠ path) : m.shows t other = m.shows s other := by
  induction normal' using Path.IsNormal.induct with
  | top =>
    obtain ⟨top, root⟩ := wf.root
    rw [wf.shows_record Path.isNormal_root root,
      wf'.shows_record Path.isNormal_root ((records _ apart).trans root)]
  | below folder name normal' named ih =>
    by_cases here : folder = path
    · rw [here]
      exact below name named
    · rw [wf.shows_join normal' named, wf'.shows_join normal' named, ih here]
      cases shown : m.shows s folder with
      | error failure => rfl
      | ok found =>
        cases found with
        | none => rfl
        | some host =>
          have place := (wf.shown_settled normal' shown).1
          simp only [Except.bind]
          cases host.isFolder with
          | false => rfl
          | true =>
            cases ready : host.generated with
            | false => simp only [m.lookup_fresh _ ready]
            | true =>
              simp only [m.lookup_generated _ ready, place, if_true]
              rw [records _ apart]

end Changing

namespace Materializer.Depicts

variable (depicts : m.Depicts v s) (within : m.worlds.Within scope)
  (wf : s.WellFormed scope m.parameters) {shown : Node}

include depicts within wf

theorem changed {change : Store.Change} (holds : s.Holds n) (suits : change.Suits m scope n)
    (new : change.apply n = some k) (like : shown.Like m k) :
    m.Depicts (v.put n.path (some shown)) (s.replaced k) := by
  have wf' := (Move.changed holds suits new).wellFormed within wf
  have proper := (suits.fits within).proper new (wf.regular.sound.proper holds).1
  have akin := Store.Change.akin new suits
  have normal := (wf.shaped holds).normal
  have here : (s.replaced k).record? n.path = some k := by
    rw [Store.record?_replaced proper, akin.path, if_pos rfl]
  have records : ∀ other, other ≠ n.path → (s.replaced k).record? other = s.record? other := by
    intro other apart
    rw [Store.record?_replaced proper, akin.path, if_neg apart]
  refine depicts.put ?_ ?_
  · intro other normal' apart
    refine shows_elsewhere wf wf' records ?_ normal' apart
    intro name named
    rw [wf.shows_join normal named, wf'.shows_join normal named, wf.shows_record normal holds,
      wf'.shows_record normal here]
    simp only [Except.bind, akin.isFolder]
    cases ready : n.generated with
    | false =>
      rw [m.lookup_fresh s ready, m.lookup_fresh _ (akin.generated.trans ready),
        m.promised_congr akin.path akin.depth]
    | true =>
      rw [m.lookup_generated s ready, m.lookup_generated _ (akin.generated.trans ready), akin.path,
        records _ (Path.join_ne normal named)]
  · rw [wf'.shows_record normal here]
    exact .some like

theorem made {folder : Node} (holds : s.Holds folder) (isFolder : folder.isFolder = true)
    (ready : folder.generated = true) (absent : s.record? n.path = none)
    (handmade : m.Handmade scope folder n) (like : shown.Like m n) :
    m.Depicts (v.put n.path (some shown)) (s.insertNode n) := by
  have wf' := (Move.made holds isFolder ready absent handmade).wellFormed within wf
  have shaped := handmade.proper.shaped
  have normal := shaped.normal
  have here : (s.insertNode n).record? n.path = some n := by
    rw [Store.record?_insertNode handmade.proper, if_pos rfl]
  have records : ∀ other, other ≠ n.path → (s.insertNode n).record? other = s.record? other := by
    intro other apart
    rw [Store.record?_insertNode handmade.proper, if_neg apart]
  have bars : m.shows s n.path = .ok none :=
    wf.bars_of_absent normal (shaped.parent.symm.trans handmade.below)
      ⟨folder, holds, isFolder, ready⟩ absent
  refine depicts.put ?_ ?_
  · intro other normal' apart
    refine shows_elsewhere wf wf' records ?_ normal' apart
    intro name named
    rw [wf.shows_join normal named, wf'.shows_join normal named, bars, wf'.shows_record normal here]
    simp only [Except.bind]
    cases kind : n.isFolder with
    | false => rfl
    | true =>
      rw [if_pos rfl, m.lookup_generated _ (handmade.complete.trans kind),
        records _ (Path.join_ne normal named),
        wf.absent_below normal named (Store.not_holdsOpen_of_absent absent)]
  · rw [wf'.shows_record normal here]
    exact .some like

theorem removed (holds : s.Holds n) (below : n.parent ≠ none)
    (empty : ∀ k, s.Holds k → k.parent ≠ some n.path)
    (ready : n.isFolder = true → n.generated = true) :
    m.Depicts (v.put n.path none) (s.eraseNode n.path n) := by
  have move : Move m scope (.removed n.path) s (s.eraseNode n.path n) := .removed holds below empty
  have wf' := move.wellFormed within wf
  have normal := (wf.shaped holds).normal
  have bars : m.shows (s.eraseNode n.path n) n.path = .ok none :=
    wf.bars_removed within holds below empty
  have records : ∀ other, other ≠ n.path →
      (s.eraseNode n.path n).record? other = s.record? other := by
    intro other apart
    rw [Store.record?_eraseNode, if_neg apart]
  refine depicts.put ?_ ?_
  · intro other normal' apart
    refine shows_elsewhere wf wf' records ?_ normal' apart
    intro name named
    rw [wf.shows_join normal named, wf'.shows_join normal named, bars, wf.shows_record normal holds]
    simp only [Except.bind]
    cases kind : n.isFolder with
    | false => rfl
    | true =>
      rw [if_pos rfl, m.lookup_generated s (ready kind)]
      cases found : s.record? (Path.join n.path name) with
      | none => rfl
      | some child =>
        exact absurd (wf.parent_join normal named found) (empty child (wf.holds found).1)
  · rw [bars]
    exact .none

end Materializer.Depicts

end SeedTree
