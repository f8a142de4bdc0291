import SeedTree.Proofs.Store.WellFormed
import SeedTree.Proofs.Store.Lawful

/- Stores without a node and all that lies below it. Calls elsewhere do the same to a store as to
   the store without the node. -/
namespace SeedTree.Store

open SeedTree.Path (Within)

def recordsWithin (s : Store) (top : String) : List Node :=
  (s.nodes.toList.filterMap fun entry => (decode entry.2).toOption).filter fun n =>
    Within top n.path

def eraseAll (s : Store) (nodes : List Node) : Store :=
  nodes.foldl (fun s n => s.eraseNode n.path n) s

/-- The store without the records at a path and below it, and without their entries in the
indexes. -/
def without (s : Store) (top : String) : Store := s.eraseAll (s.recordsWithin top)

variable {scope : Scope} {p : Parameters} {s t : Store} {n k : Node}
  {nodes : List Node} {top path : String} {world : String} {sure : Prop}

theorem Sound.entry (sound : s.Sound scope p) {key record : Bytes}
    (entry : s.nodes[key]? = some record) :
    ∃ n, decode record = .ok n ∧ key = utf8 n.path ∧ s.Holds n := by
  obtain ⟨n, proper, rfl, rfl⟩ := sound key record entry
  refine ⟨n, decode_encode proper.fits.storable, rfl, ?_⟩
  have found := sound.get n.path
  rw [Store.get, entry] at found
  simp only [decode_encode proper.fits.storable] at found
  exact (Except.ok.inj found).symm

theorem Sound.mem_recordsWithin (sound : s.Sound scope p) :
    n ∈ s.recordsWithin top ↔ s.Holds n ∧ Within top n.path := by
  rw [recordsWithin, List.mem_filter, List.mem_filterMap, decide_eq_true_iff]
  refine and_congr_left fun _ => ?_
  constructor
  · rintro ⟨⟨key, record⟩, member, read⟩
    obtain ⟨k, decoded, _, holds⟩ :=
      sound.entry (Std.ExtTreeMap.mem_toList_iff_getElem?_eq_some.mp member)
    rw [decoded] at read
    cases read
    exact holds
  · intro holds
    have entry := sound.nodes n.path
    rw [holds] at entry
    refine ⟨(utf8 n.path, Record.encode n),
      Std.ExtTreeMap.mem_toList_iff_getElem?_eq_some.mpr entry, ?_⟩
    rw [decode_encode (sound.proper holds).1.fits.storable]
    rfl

theorem Sound.recordsWithin_apart (sound : s.Sound scope p) :
    (s.recordsWithin top).Pairwise fun a b => a.path ≠ b.path := by
  refine List.Pairwise.filter _ (List.pairwise_filterMap.mpr ?_)
  refine s.nodes.distinct_keys_toList.imp_of_mem ?_
  rintro ⟨key, record⟩ ⟨key', record'⟩ member member' apart a read b read' same
  obtain ⟨n, decoded, here, _⟩ :=
    sound.entry (Std.ExtTreeMap.mem_toList_iff_getElem?_eq_some.mp member)
  obtain ⟨k, decoded', here', _⟩ :=
    sound.entry (Std.ExtTreeMap.mem_toList_iff_getElem?_eq_some.mp member')
  rw [decoded] at read
  rw [decoded'] at read'
  cases read
  cases read'
  refine apart ?_
  rw [here, here', same]
  exact Std.ReflCmp.compare_self

section Erasing

variable (regular : s.Regular scope p)

theorem record?_eraseAll (s : Store) (nodes : List Node) (path : String) :
    (s.eraseAll nodes).record? path
      = if ∃ n ∈ nodes, n.path = path then none else s.record? path := by
  induction nodes generalizing s with
  | nil => simp [eraseAll]
  | cons n nodes ih =>
    rw [eraseAll, List.foldl_cons, ← eraseAll, ih, record?_eraseNode]
    by_cases here : path = n.path
    · simp [here]
    · simp [here, Ne.symm here]

theorem ids_eraseAll {key : Bytes} (others : ∀ n ∈ nodes, n.id.bytes ≠ key) :
    (s.eraseAll nodes).ids[key]? = s.ids[key]? := by
  induction nodes generalizing s with
  | nil => rfl
  | cons n nodes ih =>
    obtain ⟨other, others⟩ := List.forall_mem_cons.mp others
    have erased : (s.eraseNode n.path n).ids = s.ids.erase n.id.bytes := rfl
    rw [eraseAll, List.foldl_cons, ← eraseAll, ih others, erased, getElem?_erase_ite, if_neg other]

include regular

theorem Regular.eraseAll (holds : ∀ n ∈ nodes, s.Holds n)
    (apart : nodes.Pairwise fun a b => a.path ≠ b.path) : (s.eraseAll nodes).Regular scope p := by
  induction nodes generalizing s with
  | nil => exact regular
  | cons n nodes ih =>
    obtain ⟨first, rest⟩ := List.forall_mem_cons.mp holds
    obtain ⟨others, apart⟩ := List.pairwise_cons.mp apart
    refine ih (regular.eraseNode first) (fun k member => ?_) apart
    exact (holds_eraseNode s n k).mpr ⟨rest k member, (others k member).symm⟩

theorem Regular.without : (s.without top).Regular scope p :=
  regular.eraseAll (fun _ member => (regular.sound.mem_recordsWithin.mp member).1)
    regular.sound.recordsWithin_apart

theorem Regular.record?_without (path : String) :
    (s.without top).record? path = if Within top path then none else s.record? path := by
  rw [Store.without, record?_eraseAll]
  by_cases within : Within top path
  · rw [if_pos within]
    split
    · rfl
    · rename_i missing
      cases found : s.record? path with
      | none => rfl
      | some n =>
        obtain ⟨_, place⟩ := regular.sound.proper found
        refine absurd ⟨n, regular.sound.mem_recordsWithin.mpr
          ⟨regular.sound.holds found, ?_⟩, place⟩
          missing
        rw [place]
        exact within
  · rw [if_neg within, if_neg]
    rintro ⟨n, member, rfl⟩
    exact within (regular.sound.mem_recordsWithin.mp member).2

end Erasing

/-- A record that a world does not show, in a folder whose children are in the store. -/
structure Hides (s : Store) (world top : String) (h folder : Node) : Prop where
  found : s.record? top = some h
  hidden : h.existence[world]? = some false
  below : h.parent = some folder.path
  above : s.Holds folder
  ready : folder.generated = true

/-- Two stores that are the same but for a node that a world does not show and all that lies below
it: the second has nothing there. If it is sure that no identities clash, records are found by their
identities alike. -/
structure Pruned (scope : Scope) (p : Parameters) (world top : String) (sure : Prop) (s t : Store) :
    Prop where
  regular : s.Regular scope p
  regular' : t.Regular scope p
  outside : ∀ path, ¬ Within top path → t.record? path = s.record? path
  inside : ∀ path, Within top path → t.record? path = none
  hides : ∃ h folder, s.Hides world top h folder
  found : sure → ∀ n, s.Holds n → ¬ Within top n.path → ∃ path, ¬ Within top path ∧
    s.ids[n.id.bytes]? = some (utf8 path) ∧ t.ids[n.id.bytes]? = some (utf8 path)

theorem WellFormed.pruned (wf : s.WellFormed scope p) {h : Node} (holds : s.Holds h)
    (below : h.parent ≠ none) (hidden : h.existence[world]? = some false)
    (tracked : sure → ∃ paths, Distinct p.seed paths ∧ s.Tracked paths) :
    Pruned scope p world h.path sure s (s.without h.path) := by
  have regular := wf.regular
  refine ⟨regular, regular.without, ?_, ?_, ?_, ?_⟩
  · intro path outside
    rw [regular.record?_without, if_neg outside]
  · intro path inside
    rw [regular.record?_without, if_pos inside]
  · obtain ⟨folder, parent⟩ := Option.ne_none_iff_exists'.mp below
    obtain ⟨above, there, _, ready⟩ := wf.parented h folder holds parent
    obtain ⟨stands, place⟩ := wf.holds there
    exact ⟨h, above, holds, hidden, by rw [place]; exact parent, stands, ready⟩
  · intro yes n there outside
    obtain ⟨paths, distinct, tracked⟩ := tracked yes
    have entered := tracked.entered n there
    refine ⟨n.path, outside, entered, ?_⟩
    rw [← entered]
    refine ids_eraseAll fun k member same => outside ?_
    obtain ⟨holds', within⟩ := regular.sound.mem_recordsWithin.mp member
    rw [← regular.path_eq_of_id distinct holds' (tracked.within k holds') (wf.shaped there)
      (tracked.within n there) same]
    exact within

namespace Pruned

variable (pruned : Pruned scope p world top sure s t)

include pruned

theorem insertNode (proper : n.Proper scope p) (outside : ¬ Within top n.path)
    (absent : s.record? n.path = none) :
    Pruned scope p world top sure (s.insertNode n) (t.insertNode n) := by
  have absent' := (pruned.outside _ outside).trans absent
  refine ⟨pruned.regular.insertNode proper absent, pruned.regular'.insertNode proper absent',
    ?_, ?_, ?_, ?_⟩
  · intro path apart
    rw [record?_insertNode proper, record?_insertNode proper, pruned.outside path apart]
  · intro path within
    rw [record?_insertNode proper, if_neg, pruned.inside path within]
    rintro rfl
    exact outside within
  · obtain ⟨h, folder, hides⟩ := pruned.hides
    refine ⟨h, folder, ?_, hides.hidden, hides.below, ?_, hides.ready⟩
    · rw [record?_insertNode proper, if_neg, hides.found]
      rintro rfl
      exact outside (Path.within_refl _)
    · exact (holds_insertNode proper absent).mpr (Or.inr hides.above)
  · intro yes k holds apart
    have grown : ∀ u : Store, (u.insertNode n).ids =
      u.ids.insert n.id.bytes (utf8 n.path) := fun _ => rfl
    rw [grown, grown, getElem?_insert_ite, getElem?_insert_ite]
    split
    · exact ⟨n.path, outside, rfl, rfl⟩
    · rename_i other
      rcases (holds_insertNode proper absent).mp holds with rfl | old
      · exact absurd rfl other
      · exact pruned.found yes k old apart

theorem replaced (holds : s.Holds n) (outside : ¬ Within top n.path) (proper : k.Proper scope p)
    (keeps : Change.Keeps n k) : Pruned scope p world top sure (s.replaced k) (t.replaced k) := by
  have holds' : t.Holds n := (pruned.outside _ outside).trans holds
  have outside : ¬ Within top k.path := by rw [keeps.place.path]; exact outside
  refine ⟨pruned.regular.replaced holds proper keeps.place,
    pruned.regular'.replaced holds' proper keeps.place, ?_, ?_, ?_, ?_⟩
  · intro path apart
    rw [record?_replaced proper, record?_replaced proper, pruned.outside path apart]
  · intro path within
    rw [record?_replaced proper, if_neg, pruned.inside path within]
    rintro rfl
    exact outside within
  · obtain ⟨h, folder, hides⟩ := pruned.hides
    have found : (s.replaced k).record? top = some h := by
      rw [record?_replaced proper, if_neg, hides.found]
      rintro rfl
      exact outside (Path.within_refl _)
    by_cases here : folder.path = k.path
    · have same : n = folder :=
        Holds.unique holds (by rw [← keeps.place.path, ← here]; exact hides.above)
      exact ⟨h, k, found, hides.hidden, by rw [← here]; exact hides.below, replaced_holds proper,
        keeps.generated (by rw [same]; exact hides.ready)⟩
    · refine ⟨h, folder, found, hides.hidden, hides.below, ?_, hides.ready⟩
      rw [Holds, record?_replaced proper, if_neg here]
      exact hides.above
  · intro yes m stands apart
    rcases holds_replaced proper stands with rfl | old
    · rw [keeps.place.id]
      exact pruned.found yes n holds (by rw [← keeps.place.path]; exact apart)
    · exact pruned.found yes m old apart

theorem outside_fresh (top_normal : Path.IsNormal top) {folder : Node} {name : String}
    (holds : s.Holds folder) (fresh : folder.generated = false) (outside : ¬ Within top folder.path)
    (named : Path.IsName name) : ¬ Within top (Path.join folder.path name) := by
  have normal := (pruned.regular.sound.proper holds).1.shaped.normal
  rw [Path.within_join_iff top_normal normal named]
  rintro (within | same)
  · exact outside within
  · obtain ⟨h, above, hides⟩ := pruned.hides
    obtain ⟨proper, place⟩ := pruned.regular.sound.proper hides.found
    have below := hides.below
    rw [proper.shaped.parent, place, ← same, Path.parent?_join normal named] at below
    have equal : folder = above :=
      Holds.unique holds (by rw [Option.some.inj below]; exact hides.above)
    rw [equal, hides.ready] at fresh
    cases fresh

theorem children (top_normal : Path.IsNormal top) {folder : String} (normal : Path.IsNormal folder)
    (outside : ¬ Within top folder) : ∃ found, s.listChildren folder = .ok found ∧
      t.listChildren folder = .ok (found.filter fun n => n.path ≠ top) ∧
      ∀ n ∈ found, s.Holds n ∧ (¬ Within top n.path ∨ n.path = top) := by
  obtain ⟨found, read, members, sorted⟩ := pruned.regular.charted.listChildren folder
  obtain ⟨found', read', members', sorted'⟩ := pruned.regular'.charted.listChildren folder
  have placed : ∀ n, s.Holds n → n.parent = some folder →
      (Within top n.path ↔ n.path = top) := by
    intro n holds below
    obtain ⟨_, named, place⟩ := (pruned.regular.sound.proper holds).1.shaped.join below
    rw [place, Path.within_join_iff top_normal normal named]
    exact or_iff_right outside
  have same : found' = found.filter fun n => n.path ≠ top := by
    have apart : ∀ {ns : List Node}, ns.Pairwise (fun a b =>
        Bytes.order (utf8 a.name) (utf8 b.name) = .lt) → ns.Nodup := by
      intro ns ordered
      refine ordered.imp fun {_ b} before equal => ?_
      have self : Bytes.order (utf8 b.name) (utf8 b.name) = .eq := Std.ReflCmp.compare_self
      rw [equal, self] at before
      cases before
    refine List.Perm.eq_of_pairwise ?_ sorted' (sorted.filter _) ((List.perm_ext_iff_of_nodup
      (apart sorted') ((apart sorted).filter _)).mpr fun n => ?_)
    · intro a b _ _ first last
      exact absurd last (Std.OrientedCmp.not_lt_of_lt first)
    · rw [members', List.mem_filter, members, decide_eq_true_iff]
      constructor
      · rintro ⟨holds, below⟩
        have outside : ¬ Within top n.path := fun within => by
          rw [Holds, pruned.inside _ within] at holds
          cases holds
        rw [Holds, pruned.outside _ outside] at holds
        exact ⟨⟨holds, below⟩, fun here => outside ((placed n holds below).mpr here)⟩
      · rintro ⟨⟨holds, below⟩, apart⟩
        have outside : ¬ Within top n.path := fun within => apart ((placed n holds below).mp within)
        exact ⟨(pruned.outside _ outside).trans holds, below⟩
  refine ⟨found, read, by rw [read', same], fun n member => ?_⟩
  obtain ⟨holds, below⟩ := (members n).mp member
  refine ⟨holds, ?_⟩
  by_cases within : Within top n.path
  · exact Or.inr ((placed n holds below).mp within)
  · exact Or.inl within

end Pruned

end SeedTree.Store
