import SeedTree.Proofs.Engine.Settling

/- A folder that has been listed in a world: the way to it is attested, its children are on record,
   and the world has decided about all of them. It stays so while others look around, and listing it
   again leaves the store as it is. -/
namespace SeedTree

open Attempt

variable {m : Materializer} {scope : Scope} {s t : Store} {held : List String}
  {world : World} {folder : String}

structure Store.Told (s : Store) (world : World) (folder : String) : Prop where
  attests : s.Attests world folder
  above : s.HoldsOpen folder
  settled : ∀ k, s.Holds k → k.parent = some folder → k.decision? world ≠ none

theorem Store.Tells.told {nodes : List Node} (tells : t.Tells world folder nodes) :
    t.Told world folder :=
  ⟨tells.attests, tells.above, tells.settled⟩

section Moving

variable (within : m.worlds.Within scope) (wf : s.WellFormed scope m.parameters)

include within wf

theorem Move.told {deed : Deed} (move : Move m scope deed s t) (walks : deed.Walks)
    (told : s.Told world folder) : t.Told world folder := by
  have attests := told.attests.walks within wf (.one walks move)
  obtain ⟨host, there, isFolder, ready⟩ := told.above
  obtain ⟨stands, place⟩ := wf.holds there
  obtain ⟨host', there', keeps, _⟩ := move.read within walks.reads wf stands
  rw [place] at there'
  refine ⟨attests, ⟨host', there', keeps.isFolder.trans isFolder, keeps.generated ready⟩,
    fun k holds below => ?_⟩
  cases move with
  | @expanded _ unfolded _ _ opens =>
    rcases opens.holds_cases wf within holds with rfl | member | ⟨old, _⟩
    · exact told.settled unfolded opens.holds below
    · obtain ⟨spec, _, rfl⟩ := List.mem_map.mp member
      cases below
      exact absurd told.above (Store.not_holdsOpen_of_fresh opens.holds opens.fresh)
    · exact told.settled k old below
  | @changed _ n _ change stands' suits new =>
    have proper := (suits.fits within).proper new (wf.regular.sound.proper stands').1
    rcases Store.holds_replaced proper holds with rfl | old
    · cases change with
      | decision decider present =>
        have backfills := Node.Backfills.decided new
        obtain ⟨decided, known⟩ := Option.ne_none_iff_exists'.mp
          (told.settled n stands' (by rw [← backfills.place.parent, below]))
        rw [backfills.decision known]
        exact Option.some_ne_none _
      | _ => exact walks.elim
    · exact told.settled k old below
  | _ => exact walks.elim

theorem Moves.told (moves : Moves m scope Deed.Walks s t) (told : s.Told world folder) :
    t.Told world folder := by
  induction moves with
  | none s => exact told
  | more walks move rest ih => exact ih (move.wellFormed within wf) (move.told within wf walks told)

end Moving

theorem ends_visibleOf_decided {nodes : List Node} {p : Parameters}
    (decided : ∀ n ∈ nodes, n.decision? world ≠ none) :
    (m.visibleOf world nodes).Ends (Setting.alone scope p) held s fun result t =>
      t = s ∧ ∃ shown, result = .ok shown := by
  induction nodes with
  | nil => exact ends_pure ⟨rfl, _, rfl⟩
  | cons n more ih =>
    obtain ⟨here, decided⟩ := List.forall_mem_cons.mp decided
    obtain ⟨visible, known⟩ := Option.ne_none_iff_exists'.mp here
    unfold Materializer.visibleOf
    rw [m.isVisible_decided known]
    refine ends_bind (ends_pure (ends_bind ((ih decided).mono ?_)))
    rintro _ _ ⟨rfl, shown, rfl⟩
    exact ends_pure ⟨rfl, _, rfl⟩

theorem Engine.ends_listChildren_told {e : Engine}
    (wf : s.WellFormed scope e.materializer.parameters)
    (offers : e.worlds.Offers world) (normal : Path.IsNormal folder) (told : s.Told world folder) :
    (e.listChildren folder world).Ends
      (Setting.alone scope e.materializer.parameters) held s fun result t =>
      t = s ∧ ∃ nodes, result = .ok nodes := by
  have normalized : Path.normalize folder = .ok folder := normal
  obtain ⟨host, there, isFolder, ready⟩ := told.above
  unfold Engine.listChildren
  rw [WorldTable.check_of_offers offers, normalized]
  refine ends_bind (ends_fromWorld ?_)
  refine ends_bind (ends_fromPath ?_)
  refine ends_bind ((ends_resolve_attested wf normal told.attests).mono ?_)
  rintro _ _ ⟨rfl, n, rfl, found⟩
  cases Store.Holds.unique there found
  have place := (wf.holds found).2
  refine ends_ite (fun isFile => ?_) fun _ => ?_
  · rw [isFolder] at isFile
    cases isFile
  · unfold Materializer.expand
    rw [if_pos ready]
    refine ends_bind
      (ends_pure (ends_bind (alone_listChildren wf.regular fun children members sorted => ?_)))
    refine ends_visibleOf_decided fun n member => ?_
    obtain ⟨holds, below⟩ := (members n).mp member
    exact told.settled n holds (by rw [below, place])

end SeedTree
