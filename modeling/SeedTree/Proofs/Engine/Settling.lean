import SeedTree.Proofs.Engine.Attested

/- What a listing settles. When it has ended well, its world has decided about every child of the
   folder, and the children that it answers are the ones that the decisions on record show. -/
namespace SeedTree

open Attempt

variable {m : Materializer} {scope : Scope} {s t u : Store} {n k : Node}
  {held : List String} {world : World} {path folder name : String}

/-- What is on record at a path and shown by the decisions that are. -/
def Store.shown? (s : Store) (world : World) (path : String) : Option Node :=
  (s.record? path).filter (·.visibleIn world)

theorem Store.WellFormed.getVisible {p : Parameters} (wf : s.WellFormed scope p)
    (path : String) (world : World) : s.getVisible path world = .ok (s.shown? world path) := by
  rw [Store.getVisible, wf.regular.sound.get]
  rfl

def Store.Backfills (s t : Store) : Prop :=
  ∀ path, Option.Rel Node.Backfills (s.record? path) (t.record? path)

namespace Store.Backfills

theorem refl (s : Store) : s.Backfills s := by
  intro path
  cases s.record? path with
  | none => exact .none
  | some n => exact .some (.refl n)

theorem trans (early : s.Backfills t) (late : t.Backfills u) : s.Backfills u := by
  intro path
  have first := early path
  have second := late path
  generalize s.record? path = here, t.record? path = between,
    u.record? path = there at first second ⊢
  cases first with
  | none => exact second
  | some backfills =>
    cases second with
    | some backfills' => exact .some (backfills.trans backfills')

theorem found (backfills : s.Backfills t) (there : s.record? path = some n) :
    ∃ k, t.record? path = some k ∧ n.Backfills k := by
  have known := backfills path
  rw [there] at known
  generalize t.record? path = later at known ⊢
  cases known with
  | some grown => exact ⟨_, rfl, grown⟩

theorem was (backfills : s.Backfills t) (there : t.record? path = some k) :
    ∃ n, s.record? path = some n ∧ n.Backfills k := by
  have known := backfills path
  rw [there] at known
  generalize s.record? path = early at known ⊢
  cases known with
  | some grown => exact ⟨_, rfl, grown⟩

end Store.Backfills

section Deciding

variable (within : m.worlds.Within scope) (wf : s.WellFormed scope m.parameters)

include within wf

theorem Move.backfills {deed : Deed} (move : Move m scope deed s t) (decides : deed.Decides) :
    s.Backfills t := by
  intro path
  cases move with
  | @changed _ n k change holds suits new =>
    have proper := (suits.fits within).proper new (wf.regular.sound.proper holds).1
    have place := (Store.Change.keeps new).place.path
    cases change with
    | decision world present =>
      rw [Store.record?_replaced proper, place]
      split
      · rename_i here
        rw [here, holds]
        exact .some (.decided new)
      · exact Store.Backfills.refl s path
    | _ => exact decides.elim
  | _ => exact decides.elim

theorem Moves.backfills (moves : Moves m scope Deed.Decides s t) : s.Backfills t := by
  induction moves with
  | none s => exact .refl s
  | more permitted move rest ih =>
    exact (move.backfills within wf permitted).trans (ih (move.wellFormed within wf))

end Deciding

theorem Blueprint.Sorted.find?_filter {nodes : List Node} (sorted : Sorted nodes)
    (some : Node → Bool) (name : String) :
    (nodes.filter some).find? (·.name = name) = (nodes.find? (·.name = name)).filter some := by
  cases found : nodes.find? (·.name = name) with
  | none =>
    refine List.find?_eq_none.mpr fun n member => ?_
    exact List.find?_eq_none.mp found n (List.mem_filter.mp member).1
  | some n =>
    have member := List.mem_of_find?_eq_some found
    have own : n.name = name := by simpa using List.find?_some found
    rw [Option.filter_some]
    split
    · rename_i kept
      rw [← own]
      exact find?_of_distinct (Sorted.distinct (sorted.filter some))
        (List.mem_filter.mpr ⟨member, kept⟩)
    · rename_i dropped
      refine List.find?_eq_none.mpr fun k among => ?_
      obtain ⟨member', kept⟩ := List.mem_filter.mp among
      intro same
      have equal := find?_of_distinct sorted.distinct member'
      rw [of_decide_eq_true same, found] at equal
      cases equal
      exact dropped kept

/-- A store as a listing leaves it, and what the listing answers. -/
structure Store.Tells (t : Store) (world : World) (folder : String) (nodes : List Node) : Prop where
  attests : t.Attests world folder
  above : t.HoldsOpen folder
  settled : ∀ k, t.Holds k → k.parent = some folder → k.decision? world ≠ none
  sorted : Blueprint.Sorted nodes
  named : ∀ n ∈ nodes, Path.IsName n.name
  shown : ∀ name, Path.IsName name →
    Option.Rel Node.Backfills (nodes.find? (·.name = name)) (t.shown? world (Path.join folder name))

section Listing

variable (wf : s.WellFormed scope m.parameters) (within : m.worlds.Within scope)
  (offers : m.worlds.Offers world)

include wf within offers

theorem ends_visibleOf_settles {children : List Node}
    (holds : ∀ n ∈ children, ∃ k, s.record? n.path = some k ∧ n.Backfills k) :
    (m.visibleOf world children).Ends (Setting.alone scope m.parameters) held s fun result t =>
      Moves m scope Deed.Decides s t ∧
        result = .ok (children.filter fun n => (t.shown? world n.path).isSome) ∧
        ∀ n ∈ children, ∃ k, t.record? n.path = some k ∧ k.decision? world ≠ none := by
  induction children generalizing s with
  | nil => exact ends_pure ⟨.none s, rfl, fun n member => absurd member List.not_mem_nil⟩
  | cons n more ih =>
    obtain ⟨⟨k, found, backfills⟩, holds⟩ := List.forall_mem_cons.mp holds
    refine ends_bind ((ends_isVisible_decides wf within offers found backfills).mono ?_)
    rintro _ t ⟨visible, l, rfl, moves, found', _, decided⟩
    have later := moves.wellFormed within wf
    refine ends_bind ((ih later fun other member => ?_).mono ?_)
    · obtain ⟨k, found, backfills⟩ := holds other member
      obtain ⟨l, found', backfills'⟩ := (moves.backfills within wf).found found
      exact ⟨l, found', backfills.trans backfills'⟩
    · rintro _ u ⟨rest, rfl, settled⟩
      obtain ⟨k, found, backfills⟩ := (rest.backfills within later).found found'
      have final := backfills.decision decided
      have shown : (u.shown? world n.path).isSome = visible := by
        rw [Store.shown?, found, Option.filter_some, Node.visibleIn, final, Option.getD_some]
        cases visible <;> rfl
      refine ends_pure ⟨moves.append rest, ?_, List.forall_mem_cons.mpr ⟨⟨k, found, ?_⟩, settled⟩⟩
      · rw [List.filter_cons, shown]
      · rw [final]
        exact Option.some_ne_none _

omit within offers in
theorem Store.WellFormed.find?_shown {children : List Node} (backfills : s.Backfills t)
    (normal : Path.IsNormal folder) (named : Path.IsName name) (sorted : Blueprint.Sorted children)
    (members : ∀ n, n ∈ children ↔ s.Holds n ∧ n.parent = some folder) :
    Option.Rel Node.Backfills
      ((children.filter fun n => (t.shown? world n.path).isSome).find? (·.name = name))
      (t.shown? world (Path.join folder name)) := by
  rw [Blueprint.Sorted.find?_filter sorted,
    wf.regular.find?_children normal named members, Store.shown?]
  have known := backfills (Path.join folder name)
  cases there : s.record? (Path.join folder name) with
  | none =>
    rw [there] at known
    generalize t.record? (Path.join folder name) = later at known
    cases known
    exact .none
  | some child =>
    have place := (wf.holds there).2
    obtain ⟨k, there', grown⟩ := backfills.found there
    rw [Option.filter_some, place, Store.shown?, there', Option.filter_some]
    cases k.visibleIn world with
    | true => exact .some grown
    | false => exact .none

theorem ends_tells (attests : s.Attests world folder) (normal : Path.IsNormal folder)
    (above : s.HoldsOpen folder) :
    (call (.listChildren folder) >>= fun children => m.visibleOf world children).Ends
      (Setting.alone scope m.parameters) held s fun result t =>
        ∀ nodes, result = .ok nodes → t.Tells world folder nodes := by
  refine ends_bind (alone_listChildren wf.regular fun children members sorted => ?_)
  refine (ends_visibleOf_settles wf within offers fun child member =>
    ⟨child, ((members child).mp member).1, .refl child⟩).mono ?_
  rintro _ t ⟨decides, rfl, settled⟩ nodes ⟨⟩
  have backfills := decides.backfills within wf
  refine ⟨attests.walks within wf (decides.mono Deed.walks_of_decides), ?_, ?_, sorted.filter _, ?_,
    fun name named => wf.find?_shown backfills normal named sorted members⟩
  · obtain ⟨host, there, isFolder, ready⟩ := above
    obtain ⟨host', there', grown⟩ := backfills.found there
    exact ⟨host', there', grown.keeps.isFolder.trans isFolder, grown.keeps.generated ready⟩
  · intro k holds below
    obtain ⟨child, there, grown⟩ := backfills.was holds
    have member := (members child).mpr ⟨(wf.holds there).1, by rw [← grown.place.parent, below]⟩
    obtain ⟨k', there', decided⟩ := settled child member
    rw [← grown.place.path] at there'
    cases Store.Holds.unique holds there'
    exact decided
  · intro child among
    obtain ⟨holds, below⟩ := (members child).mp (List.mem_filter.mp among).1
    exact ((wf.shaped holds).join below).2.1

theorem ends_list_settles (normal : Path.IsNormal folder) :
    (m.list folder world).Ends (Setting.alone scope m.parameters) held s fun result t =>
      ∀ nodes, result = .ok nodes → t.Tells world folder nodes := by
  refine ends_bind ((ends_resolve_attests wf within offers normal).mono ?_)
  rintro result t ⟨moves, arrived⟩
  cases result with
  | error failure => rintro nodes ⟨⟩
  | ok n =>
    obtain ⟨rfl, attests, k, found, keeps⟩ := arrived n rfl
    have middle := moves.wellFormed within wf
    refine ends_ite (fun _ => ends_throw (by rintro nodes ⟨⟩)) fun isFolder => ?_
    have isFolder : k.isFolder = true := by
      rw [keeps.isFolder]
      simpa using isFolder
    refine ends_bind (ends_expand middle within found isFolder keeps.generated ?_ ?_ ?_)
    · exact fun ready => ends_tells middle within offers attests normal ⟨k, found, isFolder, ready⟩
    · intro time specs opens
      have place := (middle.holds found).2
      have rest : Moves m scope Deed.Walks t _ := .one (Deed.walks_expanded _) (.expanded opens)
      refine ends_tells (rest.wellFormed within middle) within offers
        (attests.walks within middle rest) normal
        ⟨k.expanded, ?_, isFolder, rfl⟩
      rw [← place, opens.record? middle within, if_pos rfl]
    · rintro _ _ nodes ⟨⟩

end Listing

section Engines

variable {e : Engine} {input : String} {nodes : List Node}
  (wf : s.WellFormed scope e.materializer.parameters) (offers : e.worlds.Offers world)

include wf offers

theorem Engine.ends_listChildren_settles (ready : e.Ready scope e.materializer.parameters) :
    (e.listChildren input world).Ends
      (Setting.alone scope e.materializer.parameters) held s fun result t =>
      ∀ nodes, result = .ok nodes → ∃ path, Path.normalize input = .ok path ∧
        t.Tells world path nodes := by
  unfold Engine.listChildren
  rw [WorldTable.check_of_offers offers]
  refine ends_bind (ends_fromWorld ?_)
  refine ends_bind (ends_fromPath ?_)
  cases normalized : Path.normalize input with
  | error fault => rintro nodes ⟨⟩
  | ok path =>
    refine (ends_list_settles wf ready.within offers (Path.normalize_isNormal normalized)).mono ?_
    exact fun result t tells nodes answered => ⟨path, rfl, tells nodes answered⟩

theorem Engine.ends_getNode_settled (tells : s.Tells world folder nodes)
    (normal : Path.IsNormal folder)
    (named : Path.IsName name) (normalized : Path.normalize input = .ok (Path.join folder name)) :
    (e.getNode input world).Ends
      (Setting.alone scope e.materializer.parameters) held s fun result t =>
      t = s ∧ result = (s.shown? world (Path.join folder name)).elim
        (.error (.missing (Path.join folder name))) .ok := by
  unfold Engine.getNode
  rw [WorldTable.check_of_offers offers, normalized]
  refine ends_bind (ends_fromWorld ?_)
  refine ends_bind (ends_fromPath ?_)
  refine ends_resolve_settled wf normal named tells.attests tells.above fun k found => ?_
  exact tells.settled k (wf.holds found).1 (wf.parent_join normal named found)

end Engines

theorem Store.Tells.listVisible {nodes : List Node} (tells : t.Tells world folder nodes)
    (wf : t.WellFormed scope m.parameters) (normal : Path.IsNormal folder) :
    ∃ kept, t.listVisible folder world = .ok kept ∧ List.Forall₂ Node.Backfills nodes kept := by
  obtain ⟨children, listed, members, sorted⟩ := wf.regular.charted.listChildren folder
  refine ⟨children.filter (·.visibleIn world), by rw [Store.listVisible, listed]; rfl, ?_⟩
  refine Blueprint.Sorted.forall₂ tells.sorted (sorted.filter _) fun n member => ?_
  have named : Path.IsName n.name := by
    rcases List.mem_append.mp member with here | there
    · exact tells.named n here
    · obtain ⟨holds, below⟩ := (members n).mp (List.mem_filter.mp there).1
      exact ((wf.shaped holds).join below).2.1
  rw [Blueprint.Sorted.find?_filter sorted, wf.regular.find?_children normal named members]
  exact tells.shown n.name named

end SeedTree
