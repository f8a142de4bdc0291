import SeedTree.Proofs.Children.Listing
import SeedTree.Proofs.Engine.Attested
import SeedTree.Proofs.Usable

/- How little an operation puts into a store. Whatever it is and however it ends, it unfolds the
   folders on its way and at most the one it is about; each gains no more than a folder's worth of
   generated records, and a folder that was unfolded before gains none. -/
namespace SeedTree

open Attempt
open SeedTree.Path (Within)

/-- The folders that an operation may unfold. Reading by identity unfolds none. -/
def Operation.Unfolds : Operation → String → Prop
  | .getNode input _, folder | .checksum input _, folder | .createFolderAll input _, folder =>
    ∃ path, Path.normalize input = .ok path ∧ Within folder path ∧ folder ≠ path
  | .listChildren input _, folder | .deleteNode input _, folder | .createFolder input _ _, folder
  | .uploadFile input _ _ _, folder => ∃ path, Path.normalize input = .ok path ∧ Within folder path
  | .readContent _, _ | .readRange _ _ _, _ => False

section Roaming

variable {e : Engine} {m : Materializer} {scope : Scope} {p : Parameters} {fills : String → Prop}
  {here : Node} {path input : String} {world : World}

theorem roams_visibleOf (nodes : List Node) :
    (m.visibleOf world nodes).Roams scope p fills (fun _ => True) fun _ => True := by
  induction nodes with
  | nil => exact roams_pure trivial
  | cons n more ih =>
    exact roams_then (roams_isVisible trivial) fun _ => roams_then ih fun _ => roams_pure trivial

theorem roams_getNode (above : ∀ path, Path.normalize input = .ok path →
    ∀ folder, Within folder path →
      folder ≠ path → fills folder) :
    (e.getNode input world).Roams scope p fills (fun _ => True) fun n =>
      Path.normalize input = .ok n.path := by
  refine roams_then roams_fromWorld fun _ => roams_bind roams_fromPath fun path normalized => ?_
  refine (roams_resolve (Path.normalize_isNormal normalized)
    (fun folder _ inside apart => above path normalized folder inside apart) fun _ _ _ =>
      trivial).imp ?_
  rintro n rfl
  exact normalized

theorem roams_listChildren
    (onWay : ∀ path, Path.normalize input = .ok path → ∀ folder, Within folder path →
      fills folder) :
    (e.listChildren input world).Roams scope p fills (fun _ => True) fun _ => True := by
  refine roams_then roams_fromWorld fun _ => roams_bind roams_fromPath fun path normalized => ?_
  refine roams_bind (roams_resolve (Path.normalize_isNormal normalized)
    (fun folder _ inside _ => onWay path normalized folder inside) fun _ _ _ => trivial) ?_
  rintro folder rfl
  have fill := onWay folder.path normalized folder.path (Path.within_refl _)
  refine roams_ite (fun _ => roams_throw) fun _ =>
    roams_then (roams_expand fill trivial) fun _ => ?_
  exact roams_then (roams_call trivial) fun children => roams_visibleOf children

theorem roams_readContent (id : NodeId) :
    (e.readContent id).Roams scope p fills (fun _ => True) fun _ => True := by
  refine roams_then (roams_call trivial) fun found => ?_
  cases found with
  | none => exact roams_throw
  | some n =>
    refine roams_ite (fun _ => roams_throw) fun _ => ?_
    generalize fileContent n.id e.config.parameters.contentSeed n.upload = bytes
    cases n.checksum with
    | some kept =>
      refine roams_ite ?_ ?_
      · exact fun _ => roams_then roams_tell fun _ => roams_pure trivial
      · exact fun _ => roams_pure trivial
    | none => exact roams_then (roams_discard (roams_call trivial)) fun _ => roams_pure trivial

theorem roams_checksum (above : ∀ path, Path.normalize input = .ok path →
    ∀ folder, Within folder path →
      folder ≠ path → fills folder) :
    (e.checksum input world).Roams scope p fills (fun _ => True) fun _ => True := by
  refine roams_bind (roams_getNode above) fun n _ => roams_ite (fun _ => roams_throw) fun _ => ?_
  cases n.checksum with
  | some known => exact roams_pure trivial
  | none => exact roams_then (roams_readContent n.id) fun _ => roams_pure trivial

theorem roams_createFolder {name : String} (onWay : ∀ path, Path.normalize input = .ok path →
      ∀ folder, Within folder path → fills folder) :
    (e.createFolder input world name).Roams scope p fills (fun _ => True) fun n =>
      ∃ folder, Path.normalize input = .ok folder ∧ n.path = Path.join folder name := by
  refine roams_underParent (fun _ path normalized folder _ inside =>
    ⟨onWay path normalized folder inside, trivial⟩) fun parent normalized named => ?_
  have fill := onWay parent.path normalized parent.path (Path.within_refl _)
  exact (roams_createFolderLocked (Path.normalize_isNormal normalized) named fill trivial).imp
    fun n place => ⟨parent.path, normalized, place⟩

theorem roams_createAlong {names : List String} (normal : Path.IsNormal here.path)
    (valid : ∀ name ∈ names, Path.IsName name)
    (above : ∀ folder, Within folder (names.foldl Path.join here.path) →
      folder ≠ names.foldl Path.join here.path → fills folder) :
    (e.createAlong world names here).Roams scope p fills (fun _ => True) fun _ => True := by
  induction names generalizing here with
  | nil => exact roams_pure trivial
  | cons name more ih =>
    obtain ⟨named, valid⟩ := List.forall_mem_cons.mp valid
    have normal' := Path.isNormal_join normal named
    have further : Within (Path.join here.path name)
        (more.foldl Path.join (Path.join here.path name)) :=
      Path.within_foldl normal' valid
    have fill : ∀ folder, Within folder here.path → fills folder := by
      intro folder inside
      refine above folder ((Path.within_join_of_within normal named inside).1.trans further) ?_
      rintro rfl
      exact (Path.within_join_of_within normal named (further.trans inside)).2 rfl
    have fill' : ∀ folder, Path.IsNormal folder → Within folder (Path.join here.path name) →
        folder ≠ Path.join here.path name → fills folder := by
      intro folder normal'' inside apart
      rcases (Path.within_join_iff normal'' normal named).mp inside with higher | same
      · exact fill folder higher
      · exact absurd same.symm apart
    have onward : ∀ n : Node, n.path = Path.join here.path name →
        (e.createAlong world more n).Roams scope p fills (fun _ => True) fun _ => True := by
      intro n place
      rw [← place] at normal'
      refine ih normal' valid ?_
      rw [place]
      exact above
    refine roams_bind (roams_outcome (roams_resolve normal' fill' fun _ _ _ => trivial))
      fun result there => ?_
    cases result with
    | ok n => exact roams_ite (fun _ => onward n (there n rfl)) fun _ => roams_throw
    | error failure =>
      cases failure with
      | notFound missing =>
        have made : (e.createFolder here.path world name).Roams scope p fills
          (fun _ => True) fun n =>
            ∃ folder, Path.normalize here.path = .ok folder ∧ n.path = Path.join folder name := by
          refine roams_createFolder fun path normalized folder inside => fill folder ?_
          rw [normal] at normalized
          cases normalized
          exact inside
        refine roams_bind (roams_outcome made) fun result there => ?_
        cases result with
        | ok n =>
          obtain ⟨folder, normalized, place⟩ := there n rfl
          rw [normal] at normalized
          cases normalized
          exact onward n place
        | error failure =>
          cases failure with
          | alreadyExists taken =>
            exact roams_bind (roams_resolveFolder normal' fill' fun _ _ _ => trivial) onward
          | _ => exact roams_throw
      | _ => exact roams_throw

theorem roams_createFolderAll
    (above : ∀ path, Path.normalize input = .ok path → ∀ folder, Within folder path →
      folder ≠ path → fills folder) :
    (e.createFolderAll input world).Roams scope p fills (fun _ => True) fun _ => True := by
  refine roams_then roams_fromWorld fun _ => roams_bind roams_fromPath fun path normalized => ?_
  have normal := Path.normalize_isNormal normalized
  refine roams_bind (roams_resolve Path.isNormal_root
    (fun folder normal' inside apart => absurd inside (Path.not_within_root normal' apart))
    fun _ _ _ => trivial) fun root place => ?_
  refine roams_createAlong (by rw [place]; exact Path.isNormal_root) normal.components.1 ?_
  rw [place, normal.foldl_join]
  exact above path normalized

theorem Operation.roams (r : Operation) :
    (r.run e).Roams scope p r.Unfolds (fun _ => True) fun _ => True := by
  cases r with
  | getNode input world =>
    exact (roams_getNode fun path normalized _ inside apart =>
      ⟨path, normalized, inside, apart⟩).imp
      fun _ _ => trivial
  | listChildren input world =>
    exact roams_listChildren fun path normalized _ inside => ⟨path, normalized, inside⟩
  | createFolder input world name =>
    exact (roams_createFolder fun path normalized _ inside => ⟨path, normalized, inside⟩).imp
      fun _ _ => trivial
  | createFolderAll input world =>
    exact roams_createFolderAll fun path normalized _ inside apart =>
      ⟨path, normalized, inside, apart⟩
  | uploadFile input world name data =>
    refine roams_underParent
      (fun _ path normalized folder _ inside => ⟨⟨path, normalized, inside⟩, trivial⟩)
      fun parent normalized named => ?_
    exact roams_uploadLocked (Path.normalize_isNormal normalized) named
      ⟨parent.path, normalized, Path.within_refl _⟩ trivial data
  | deleteNode input world =>
    exact roams_deleteNode fun path normalized folder _ inside =>
      ⟨⟨path, normalized, inside⟩, trivial⟩
  | readContent id => exact roams_readContent id
  | readRange id offset length =>
    exact roams_then (roams_readContent id) fun _ => roams_pure trivial
  | checksum input world =>
    exact roams_checksum fun path normalized _ inside apart => ⟨path, normalized, inside, apart⟩

end Roaming

/-- Where a record comes from that was not there before: its folder has been unfolded, which it had
not been, or it has been made by hand. It may have been changed since. -/
inductive Materializer.Sources (m : Materializer) (scope : Scope) (may : Deed → Prop)
    (s : Store) (k : Node) : Prop where
  | drawn {folder : Node} {time : Moment} {specs : List ChildSpec} {spec : ChildSpec}
      (fresh : ∀ n, s.record? folder.path = some n → n.generated = false)
      (shaped : folder.Shaped m.parameters.seed)
        (drawn : m.specs? folder = some specs) (member : spec ∈ specs)
      (becomes : (m.generatedChild folder time spec).Becomes True True (fun _ => True) k)
  | made {folder n : Node} (permitted : may (.made n.path)) (handmade : m.Handmade scope folder n)
      (becomes : n.Becomes True True (fun _ => True) k)

section Tracing

variable {m : Materializer} {scope : Scope} {may : Deed → Prop} {s t : Store} {n k : Node}
  (within : m.worlds.Within scope) (wf : s.WellFormed scope m.parameters)

namespace Materializer.Sources

theorem becomes (sources : m.Sources scope may s n)
    (becomes : n.Becomes True True (fun _ => True) k) : m.Sources scope may s k := by
  cases sources with
  | drawn fresh shaped drawn member first =>
    exact .drawn fresh shaped drawn member (first.trans becomes)
  | made permitted handmade first => exact .made permitted handmade (first.trans becomes)

theorem before (sources : m.Sources scope may t k)
    (lasts : ∀ n, s.Holds n → ∃ k, t.record? n.path = some k ∧
      (n.generated = true → k.generated = true))
        (placed : ∀ path n, s.record? path = some n → n.path = path) :
    m.Sources scope may s k := by
  cases sources with
  | made permitted handmade first => exact .made permitted handmade first
  | @drawn folder _ _ _ fresh shaped drawn member first =>
    refine .drawn (fun n found => ?_) shaped drawn member first
    have place := placed _ n found
    obtain ⟨k, found', stays⟩ := lasts n (by rw [Store.Holds, place, found])
    by_contra done
    rw [place] at found'
    have ready := stays (by simpa using done)
    rw [fresh k found'] at ready
    cases ready

end Materializer.Sources

include within wf

theorem Materializer.sources_of_move {deed : Deed}
    (move : Move m scope deed s t) (permitted : may deed)
    (holds : t.Holds n) (new : s.record? n.path = none) : m.Sources scope may s n := by
  cases move with
  | @expanded _ folder time specs opens =>
    rcases opens.holds_cases wf within holds with rfl | member | ⟨old, _⟩
    · have there : s.record? folder.expanded.path = some folder := opens.holds
      rw [new] at there
      cases there
    · obtain ⟨spec, among, rfl⟩ := List.mem_map.mp member
      refine .drawn (fun n found => ?_) (wf.shaped opens.holds) opens.drawn among (.refl _)
      cases Store.Holds.unique opens.holds found
      exact opens.fresh
    · rw [Store.Holds, new] at old
      cases old
  | @changed _ old k change stands suits applied =>
    have proper := (suits.fits within).proper applied (wf.regular.sound.proper stands).1
    rcases Store.holds_replaced proper holds with rfl | there
    · rw [(Store.Change.keeps applied).place.path, stands] at new
      cases new
    · rw [Store.Holds, new] at there
      cases there
  | made stands isFolder ready absent handmade =>
    rcases (Store.holds_insertNode handmade.proper absent).mp holds with rfl | there
    · exact .made permitted handmade (.refl _)
    · rw [Store.Holds, new] at there
      cases there
  | removed =>
    have there := ((Store.holds_eraseNode _ _ n).mp holds).1
    rw [Store.Holds, new] at there
    cases there

theorem Materializer.sources_of_moves (moves : Moves m scope may s t)
    (lasts : ∀ deed, may deed → deed.Lasts)
    (holds : t.Holds k) (new : s.record? k.path = none) : m.Sources scope may s k := by
  induction moves with
  | none s =>
    rw [Store.Holds, new] at holds
    cases holds
  | @more deed s u t permitted move rest ih =>
    have later := move.wellFormed within wf
    cases there : u.record? k.path with
    | none =>
      refine (ih later holds there).before (fun n stands => ?_) fun path n found =>
        (wf.holds found).2
      have first : Moves m scope Deed.Lasts s u := .one (lasts _ permitted) move
      obtain ⟨l, found, becomes⟩ := first.lasting within wf stands
      exact ⟨l, found, becomes.keeps.generated⟩
    | some n =>
      obtain ⟨stands, place⟩ := later.holds there
      obtain ⟨l, found, becomes⟩ := (rest.mono lasts).lasting within later stands
      rw [place] at found
      cases Store.Holds.unique found holds
      exact (sources_of_move within wf move permitted stands (by rw [place, new])).becomes becomes

end Tracing

theorem Operation.Does.lasts {r : Operation} {seed : UInt64} {succeeded : Bool} {deed : Deed}
    (does : r.Does seed succeeded deed) : deed.Lasts := by
  cases deed with
  | removed path => exact does.elim
  | _ => trivial

theorem Operation.Leaves.sources {m : Materializer} {scope : Scope} {r : Operation}
    {succeeded : Bool} {s t : Store}
    {k : Node} (leaves : r.Leaves m scope succeeded s t) (within : m.worlds.Within scope)
    (wf : s.WellFormed scope m.parameters) (holds : t.Holds k) (new : s.record? k.path = none) :
    m.Sources scope (r.Does m.parameters.seed succeeded) s k := by
  cases leaves with
  | kept moves =>
    exact Materializer.sources_of_moves within wf moves (fun _ => Does.lasts) holds new
  | removed moves =>
    have holds := ((Store.holds_eraseNode _ _ k).mp holds).1
    exact Materializer.sources_of_moves within wf moves (fun _ => Does.lasts) holds new

theorem Children.Listing.length_le {p : Parameters} {depth : UInt32}
    {folders files : List ChildSpec} (listing : Listing p depth folders files) :
    (folders ++ files).length ≤ p.maxFolders.toNat + p.maxFiles.toNat := by
  have few : folders.length ≤ p.maxFolders.toNat := by
    rcases UInt32.lt_or_le depth p.maxDepth with room | deep
    · exact (listing.folder_count room).2
    · rw [listing.none_below deep]
      exact Nat.zero_le _
  rw [List.length_append]
  exact Nat.add_le_add few listing.file_count.2

theorem Config.parameters_of_check {c : Config} (checked : c.check = .ok ()) :
    c.parameters.check = .ok () := by
  unfold Config.check at checked
  cases parameters : c.parameters.check with
  | ok passed => rfl
  | error fault =>
    rw [parameters] at checked
    cases checked

namespace Session

def Adds (a b : Session) (k : Node) : Prop := b.store.Holds k ∧ a.store.record? k.path = none

/-- A record that an operation has made by hand, and may have changed since. -/
def MadeByHand (scope : Scope) (a : Session) (r : Operation) (k : Node) : Prop :=
  r.Makes k.path ∧ ∃ folder made, a.engine.materializer.Handmade scope folder made ∧
    made.Becomes True True (fun _ => True) k

/-- How little an operation adds. -/
structure Lazy (scope : Scope) (a b : Session) (r : Operation) : Prop where
  /-- All that is new lies in folders that the operation unfolds. -/
  placed : ∀ k, Adds a b k → ∃ folder, k.parent = some folder ∧ r.Unfolds folder
  /-- No folder gains more than the configuration lets it have, apart from what is made in it by
  hand. -/
  few : ∀ folder, ∃ drawn : List Node,
    drawn.length ≤ a.engine.config.parameters.maxFolders.toNat +
      a.engine.config.parameters.maxFiles.toNat ∧
    ∀ k, Adds a b k → k.parent = some folder → k ∈ drawn ∨ MadeByHand scope a r k
  /-- A folder that had been unfolded before gains nothing but what is made in it by hand. -/
  whole : ∀ n, a.store.Holds n → n.generated = true → ∀ k, Adds a b k → k.parent = some n.path →
    MadeByHand scope a r k

variable {scope : Scope} {a : Session} {r : Operation} {site : Site} {k : Node}

section Operating

variable (valid : a.Valid scope) (fits : r.Fits)
  (here : site.store = a.store) (timely : site.Timely)

include valid fits here timely

theorem Valid.confines : a.store.Confines r.Unfolds (fun _ => True) (a.after r site).store := by
  have wf := valid.wellFormed
  rw [← here] at wf ⊢
  have ends : (r.run a.engine).Ends
      (Setting.alone scope a.engine.materializer.parameters) [] site.store _ :=
    ends_run wf valid.ready r fits
  exact r.roams.confines ends wf.regular timely

theorem Valid.sources (adds : Adds a (a.after r site) k) :
    ∃ succeeded, a.engine.materializer.Sources scope
    (r.Does a.engine.materializer.parameters.seed succeeded) a.store k :=
  ⟨_, (valid.leaves fits here timely).sources valid.ready.within valid.wellFormed adds.1 adds.2⟩

theorem Valid.added (adds : Adds a (a.after r site) k) {folder : String}
    (below : k.parent = some folder) :
    (∃ specs spec, (∀ n, a.store.record? folder = some n → n.generated = false) ∧ spec ∈ specs ∧
      Children.generate? Draw.patience a.engine.materializer.parameters folder
        (UInt32.ofNat (Path.components folder).length) = some specs ∧
          k.path = Path.join folder spec.name) ∨
      MadeByHand scope a r k := by
  obtain ⟨succeeded, sources⟩ := valid.sources fits here timely adds
  cases sources with
  | @drawn host time specs spec fresh shaped drawn member becomes =>
    have parent := becomes.keeps.place.parent
    rw [below] at parent
    cases parent
    rw [Materializer.specs?, shaped.depth] at drawn
    exact Or.inl ⟨specs, spec, fresh, member, drawn, becomes.keeps.place.path⟩
  | made permitted handmade becomes =>
    refine Or.inr ⟨?_, _, _, handmade, becomes⟩
    rw [becomes.keeps.place.path]
    exact permitted

end Operating

/-- Whatever is asked of a reached session, and however it ends, little is added to its store. -/
theorem operation_lazy (reached : a.Reached scope) (fits : r.Fits) (here : site.store = a.store)
    (timely : site.Timely) : Lazy scope a (a.after r site) r := by
  have valid := reached.valid
  have wf : (a.after r site).store.WellFormed scope a.engine.materializer.parameters :=
    (valid.moves fits here timely).wellFormed valid.ready.within valid.wellFormed
  have accepted : a.engine.materializer.parameters.check = .ok () := by
    rw [← valid.ready.config]
    exact Config.parameters_of_check reached.configured.1
  refine ⟨?_, ?_, ?_⟩
  · rintro k ⟨holds, new⟩
    obtain ⟨folder, parent, unfolds⟩ := (valid.confines fits here timely).placed k.path new
      (by rw [holds]; exact Option.some_ne_none _)
    exact ⟨folder, (wf.shaped holds).parent.trans parent, unfolds⟩
  · intro folder
    cases drawn : Children.generate? Draw.patience a.engine.materializer.parameters folder
        (UInt32.ofNat (Path.components folder).length) with
    | none =>
      refine ⟨[], Nat.zero_le _, fun k adds below => ?_⟩
      rcases valid.added fits here timely adds below with ⟨specs, spec, _, _, drawn', _⟩ | made
      · rw [drawn] at drawn'
        cases drawn'
      · exact Or.inr made
    | some specs =>
      refine ⟨specs.filterMap fun spec => (a.after r site).store.record?
        (Path.join folder spec.name), ?_,
        fun k adds below => ?_⟩
      · rw [valid.ready.config]
        obtain ⟨folders, files, rfl, listing⟩ :=
          (Children.drawn_entries_listed accepted _).2 _ _ _ drawn
        exact (List.length_filterMap_le _ _).trans listing.length_le
      · rcases valid.added fits here timely adds below
          with ⟨specs', spec, _, member, drawn', place⟩ | made
        · rw [drawn] at drawn'
          cases drawn'
          refine Or.inl (List.mem_filterMap.mpr ⟨spec, member, ?_⟩)
          rw [← place]
          exact adds.1
        · exact Or.inr made
  · intro n stands ready k adds below
    rcases valid.added fits here timely adds below with ⟨_, _, fresh, _⟩ | made
    · rw [fresh n stands] at ready
      cases ready
    · exact made

theorem newFolder_lazy : newTree.Reached .bare ∧ (Operation.createFolder "/" .primary "a").Fits ∧
    Lazy .bare newTree newFolder (.createFolder "/" .primary "a") := by
  have reached : newTree.Reached .bare := ⟨_, newTree_begins, .none _⟩
  have short : IsShort (Path.join "/" "a") := by decide +kernel
  have fits : (Operation.createFolder "/" .primary "a").Fits :=
    Operation.fits_createFolder (by rfl) short
  exact ⟨reached, fits, operation_lazy reached fits (Site.still_store _) (Site.still_timely _)⟩

end Session

end SeedTree
