import SeedTree.Proofs.Node.Shape
import SeedTree.Store

/- A store as a map from paths to nodes, and what the two indexes hold of it. All later modules
   speak of records and never of stored bytes. -/
namespace SeedTree.Store

/-- The record at a path, if there is one that can be read. -/
def record? (s : Store) (path : String) : Option Node :=
  match s.get path with
  | .ok found => found
  | .error _ => none

def Holds (s : Store) (n : Node) : Prop := s.record? n.path = some n

/-- Every entry is a proper node under its own path. -/
def Sound (scope : Scope) (p : Parameters) (s : Store) : Prop :=
  ∀ key record, s.nodes[key]? = some record →
    ∃ n : Node, n.Proper scope p ∧ key = utf8 n.path ∧ record = Record.encode n

/-- The child index has exactly one empty entry for every record below the root. -/
def Indexed (s : Store) : Prop :=
  ∀ key value, s.children[key]? = some value ↔
    value = [] ∧ ∃ n, s.Holds n ∧ indexKey? n = some key

/-- Every entry of the identity index leads to a record of that identity. -/
def Pointed (s : Store) : Prop :=
  ∀ key value, s.ids[key]? = some value →
    ∃ n, s.Holds n ∧ n.id.bytes = key ∧ value = utf8 n.path

/-- What holds of a store at every moment, also while calls on it are under way. -/
structure Regular (scope : Scope) (p : Parameters) (s : Store) : Prop where
  sound : s.Sound scope p
  indexed : s.Indexed
  pointed : s.Pointed

/-- What the indexes rely on, whatever else the records are: each can be read, under its own path
and in the place that its index key tells. -/
structure Charted (s : Store) : Prop where
  reads : ∀ path, s.get path = .ok (s.record? path)
  own : ∀ path n, s.record? path = some n → n.path = path
  placed : ∀ n, s.Holds n → n.Placed
  indexed : s.Indexed
  pointed : s.Pointed

theorem decode_encode {n : Node} (storable : n.Storable) : decode (Record.encode n) = .ok n := by
  have read := Record.node_encode storable []
  rw [List.append_nil] at read
  simp only [decode, Record.decode?, read, Option.map_some]
  rfl

section Reading

variable {scope : Scope} {p : Parameters} {s : Store}

theorem Sound.get (sound : s.Sound scope p) (path : String) :
    s.get path = .ok (s.record? path) := by
  unfold record? Store.get
  cases entry : s.nodes[utf8 path]? with
  | none => rfl
  | some record =>
    obtain ⟨n, proper, _, rfl⟩ := sound _ _ entry
    simp only [decode_encode proper.fits.storable]
    rfl

theorem Sound.nodes (sound : s.Sound scope p) (path : String) :
    s.nodes[utf8 path]? = (s.record? path).map Record.encode := by
  unfold record? Store.get
  cases entry : s.nodes[utf8 path]? with
  | none => rfl
  | some record =>
    obtain ⟨n, proper, _, rfl⟩ := sound _ _ entry
    simp only [decode_encode proper.fits.storable]
    rfl

theorem Sound.proper (sound : s.Sound scope p) {path : String} {n : Node}
    (found : s.record? path = some n) : n.Proper scope p ∧ n.path = path := by
  have entry := sound.nodes path
  rw [found] at entry
  obtain ⟨m, proper, key, record⟩ := sound _ _ entry
  have same : n = m := by
    have read := sound.get path
    rw [Store.get, entry, Option.map_some, record] at read
    simp only [decode_encode proper.fits.storable, found] at read
    cases read
    rfl
  rw [same]
  exact ⟨proper, (utf8_injective key).symm⟩

theorem Sound.holds (sound : s.Sound scope p) {path : String} {n : Node}
    (found : s.record? path = some n) : s.Holds n := by
  have path := (sound.proper found).2
  rw [Holds, path, found]

theorem Regular.charted (regular : s.Regular scope p) : s.Charted where
  reads := regular.sound.get
  own := fun _ _ found => (regular.sound.proper found).2
  placed := fun _ holds => (regular.sound.proper holds).1.shaped.placed
  indexed := regular.indexed
  pointed := regular.pointed

end Reading

section Writing

variable {scope : Scope} {p : Parameters} {s t : Store} {n : Node}

theorem record?_congr (same : t.nodes = s.nodes) (path : String) :
    t.record? path = s.record? path := by
  rw [record?, record?, get, get, same]

theorem Sound.congr (sound : s.Sound scope p) (same : t.nodes = s.nodes) :
    t.Sound scope p := by
  intro key record entry
  rw [same] at entry
  exact sound key record entry

theorem Sound.written (sound : s.Sound scope p) (proper : n.Proper scope p)
    (written : t.nodes = s.nodes.insert (utf8 n.path) (Record.encode n)) :
    t.Sound scope p := by
  intro key record entry
  rw [written, getElem?_insert_ite] at entry
  split at entry
  · rename_i here
    cases entry
    exact ⟨n, proper, here.symm, rfl⟩
  · exact sound key record entry

theorem get_written {place : String} (storable : n.Storable)
    (written : t.nodes = s.nodes.insert (utf8 place) (Record.encode n)) (path : String) :
    t.get path = if path = place then .ok (some n) else s.get path := by
  unfold Store.get
  rw [written, getElem?_insert_ite]
  by_cases here : path = place
  · rw [if_pos here, if_pos (by rw [here])]
    simp only [decode_encode storable]
    rfl
  · rw [if_neg here, if_neg fun same => here (utf8_injective same).symm]

theorem record?_written (storable : n.Storable)
    (written : t.nodes = s.nodes.insert (utf8 n.path) (Record.encode n)) (path : String) :
    t.record? path = if path = n.path then some n else s.record? path := by
  rw [record?, get_written storable written]
  by_cases here : path = n.path
  · rw [if_pos here, if_pos here]
  · rw [if_neg here, if_neg here]
    rfl

theorem Sound.erased (sound : s.Sound scope p) {path : String}
    (erased : t.nodes = s.nodes.erase (utf8 path)) : t.Sound scope p := by
  intro key record entry
  rw [erased, getElem?_erase_ite] at entry
  split at entry
  · cases entry
  · exact sound key record entry

theorem get_erased {path : String} (erased : t.nodes = s.nodes.erase (utf8 path))
    (other : String) : t.get other = if other = path then .ok none else s.get other := by
  unfold Store.get
  rw [erased, getElem?_erase_ite]
  by_cases here : other = path
  · rw [if_pos here, if_pos (by rw [here])]
    rfl
  · rw [if_neg here, if_neg fun same => here (utf8_injective same).symm]

theorem record?_erased {path : String} (erased : t.nodes = s.nodes.erase (utf8 path))
    (other : String) : t.record? other = if other = path then none else s.record? other := by
  rw [record?, get_erased erased]
  by_cases here : other = path
  · rw [if_pos here, if_pos here]
  · rw [if_neg here, if_neg here]
    rfl

end Writing

section Keys

variable {n m : Node}

theorem indexKey?_eq_some_iff {key : Bytes} : indexKey? n = some key ↔
    ∃ folder, n.parent = some folder ∧ key = utf8 folder ++ 0 :: utf8 n.name := by
  simp only [indexKey?, Option.map_eq_some_iff, childKey, childStart, List.append_assoc,
    List.singleton_append]
  constructor
  · rintro ⟨folder, below, same⟩
    exact ⟨folder, below, same.symm⟩
  · rintro ⟨folder, below, same⟩
    exact ⟨folder, below, same.symm⟩

/-- A key before whose only zero another byte string ends begins with it only if both parts
agree. -/
theorem prefix_of_zero {before start after : Bytes} (clean : (0 : UInt8) ∉ before)
    (clean' : (0 : UInt8) ∉ after) (first : start ++ [0] <+: before ++ 0 :: after) :
    start = before := by
  induction start generalizing before with
  | nil =>
    cases before with
    | nil => rfl
    | cons b before =>
      have same := (List.cons_prefix_cons.mp first).1
      exact absurd (by simp [← same]) clean
  | cons b start ih =>
    cases before with
    | nil =>
      obtain ⟨_, rest⟩ := List.cons_prefix_cons.mp first
      have inside : (0 : UInt8) ∈ after := rest.subset (by simp)
      exact absurd inside clean'
    | cons c before =>
      obtain ⟨same, rest⟩ := List.cons_prefix_cons.mp first
      simp only [List.mem_cons, not_or] at clean
      rw [same, ih clean.2 rest]

theorem zero_not_mem_of_below (placed : n.Placed) {folder : String}
    (below : n.parent = some folder) : (0 : UInt8) ∉ utf8 folder ∧ (0 : UInt8) ∉ utf8 n.name := by
  obtain ⟨normal, valid, _⟩ := placed folder below
  exact ⟨zero_not_mem_utf8 normal.nul, zero_not_mem_utf8 valid.nul⟩

theorem path_eq_of_indexKey? (left : n.Placed) (right : m.Placed) {key : Bytes}
    (here : indexKey? n = some key) (there : indexKey? m = some key) : n.path = m.path := by
  obtain ⟨folder, below, rfl⟩ := indexKey?_eq_some_iff.mp here
  obtain ⟨folder', below', same⟩ := indexKey?_eq_some_iff.mp there
  obtain ⟨clean, clean'⟩ := zero_not_mem_of_below left below
  obtain ⟨other, other'⟩ := zero_not_mem_of_below right below'
  have first : utf8 folder = utf8 folder' := by
    have start : utf8 folder ++ [0] <+: utf8 folder' ++ 0 :: utf8 m.name := by
      rw [← same]
      exact ⟨utf8 n.name, by simp⟩
    exact prefix_of_zero other other' start
  rw [first] at same
  have names := List.append_cancel_left same
  simp only [List.cons.injEq, true_and] at names
  rw [(left _ below).2.2, (right _ below').2.2, utf8_injective first, utf8_injective names]

end Keys

theorem order_append (start a b : Bytes) :
    Bytes.order (start ++ a) (start ++ b) = Bytes.order a b := by
  induction start with
  | nil => rfl
  | cons c start ih =>
    have equal : Bytes.byteOrder c c = .eq := Std.ReflCmp.compare_self
    simp only [Bytes.order, List.cons_append, List.compareLex_cons_cons, equal] at ih ⊢
    exact ih

section Children

variable {s : Store}

theorem Charted.mem_childNames (charted : s.Charted) (folder : String) (bytes : Bytes) :
    bytes ∈ s.childNames folder ↔
      ∃ n, s.Holds n ∧ n.parent = some folder ∧ bytes = utf8 n.name := by
  simp only [childNames, ByteMap.startingWith, List.mem_map, List.mem_filter, Prod.exists]
  constructor
  · rintro ⟨key, value, ⟨entry, start⟩, rfl⟩
    have found := Std.ExtTreeMap.mem_toList_iff_getElem?_eq_some.mp entry
    obtain ⟨_, n, holds, shape⟩ := (charted.indexed key value).mp found
    obtain ⟨above, below, rfl⟩ := indexKey?_eq_some_iff.mp shape
    obtain ⟨clean, clean'⟩ := zero_not_mem_of_below (charted.placed n holds) below
    have same := prefix_of_zero clean clean' (List.isPrefixOf_iff_prefix.mp start)
    refine ⟨n, holds, by rw [below, utf8_injective same], ?_⟩
    have split : utf8 above ++ 0 :: utf8 n.name = childStart folder ++ utf8 n.name := by
      rw [childStart, same]
      simp
    rw [split, List.drop_left]
  · rintro ⟨n, holds, below, rfl⟩
    have key : indexKey? n = some (childStart folder ++ utf8 n.name) := by
      rw [indexKey?, below]
      rfl
    refine ⟨childStart folder ++ utf8 n.name, [], ⟨?_, ?_⟩, List.drop_left⟩
    · exact Std.ExtTreeMap.mem_toList_iff_getElem?_eq_some.mpr
        ((charted.indexed _ _).mpr ⟨rfl, n, holds, key⟩)
    · exact List.isPrefixOf_iff_prefix.mpr (List.prefix_append _ _)

theorem childNames_sorted (s : Store) (folder : String) :
    (s.childNames folder).Pairwise fun a b => Bytes.order a b = .lt := by
  refine List.pairwise_map.mpr ?_
  refine (s.children.ordered_keys_toList.filter _).imp_of_mem ?_
  intro a b left right less
  obtain ⟨_, start⟩ := List.mem_filter.mp left
  obtain ⟨_, start'⟩ := List.mem_filter.mp right
  obtain ⟨rest, whole⟩ := List.isPrefixOf_iff_prefix.mp start
  obtain ⟨rest', whole'⟩ := List.isPrefixOf_iff_prefix.mp start'
  rw [← whole, ← whole', order_append] at less
  rw [← whole, ← whole', List.drop_left, List.drop_left]
  exact less

theorem Charted.childRecord (charted : s.Charted) {n : Node} (holds : s.Holds n)
    {folder : String} (below : n.parent = some folder) :
    s.childRecord folder (utf8 n.name) = .ok (some n) := by
  have path := (charted.placed _ holds _ below).2.2
  simp only [Store.childRecord, Bytes.toText_utf8]
  rw [← path, charted.reads, holds]

theorem Charted.listChildren (charted : s.Charted) (folder : String) :
    ∃ found, s.listChildren folder = .ok found ∧
      (∀ n, n ∈ found ↔ s.Holds n ∧ n.parent = some folder) ∧
      found.Pairwise fun a b => Bytes.order (utf8 a.name) (utf8 b.name) = .lt := by
  have read : ∀ names : List Bytes, (∀ bytes ∈ names,
      ∃ n, s.Holds n ∧ n.parent = some folder ∧ bytes = utf8 n.name) →
      ∃ found : List Node, names.mapM (s.childRecord folder) = .ok (found.map some) ∧
        found.map (fun n => utf8 n.name) = names ∧
        ∀ n ∈ found, s.Holds n ∧ n.parent = some folder := by
    intro names
    induction names with
    | nil => exact fun _ => ⟨[], rfl, rfl, by simp⟩
    | cons bytes names ih =>
      intro all
      obtain ⟨n, holds, below, rfl⟩ := all bytes (by simp)
      obtain ⟨found, mapped, named, members⟩ := ih fun other member => all other (by simp [member])
      refine ⟨n :: found, ?_, by simp [named], ?_⟩
      · rw [List.mapM_cons, charted.childRecord holds below, mapped]
        rfl
      · intro m member
        rcases List.mem_cons.mp member with rfl | later
        · exact ⟨holds, below⟩
        · exact members m later
  obtain ⟨found, mapped, named, members⟩ := read (s.childNames folder) fun bytes member =>
    (charted.mem_childNames folder bytes).mp member
  refine ⟨found, ?_, ?_, ?_⟩
  · rw [Store.listChildren, mapped]
    simp [bind, Except.bind, pure, Except.pure]
  · intro n
    refine ⟨members n, ?_⟩
    rintro ⟨holds, below⟩
    have listed : utf8 n.name ∈ s.childNames folder :=
      (charted.mem_childNames folder _).mpr ⟨n, holds, below, rfl⟩
    rw [← named] at listed
    obtain ⟨m, member, same⟩ := List.mem_map.mp listed
    obtain ⟨holds', below'⟩ := members m member
    have path := (charted.placed _ holds _ below).2.2
    have path' := (charted.placed _ holds' _ below').2.2
    rw [utf8_injective same, ← path] at path'
    have equal : s.record? m.path = some n := by rw [path', holds]
    rw [holds'] at equal
    cases equal
    exact member
  · have sorted := childNames_sorted s folder
    rw [← named] at sorted
    exact List.pairwise_map.mp sorted

theorem Charted.hasChildren_iff (charted : s.Charted) (folder : String) :
    s.hasChildren folder = true ↔ ∃ n, s.Holds n ∧ n.parent = some folder := by
  rw [Store.hasChildren, Bool.not_eq_true', List.isEmpty_eq_false_iff_exists_mem]
  constructor
  · rintro ⟨bytes, member⟩
    obtain ⟨n, holds, below, _⟩ := (charted.mem_childNames folder bytes).mp member
    exact ⟨n, holds, below⟩
  · rintro ⟨n, holds, below⟩
    exact ⟨_, (charted.mem_childNames folder _).mpr ⟨n, holds, below, rfl⟩⟩

theorem Charted.getById (charted : s.Charted) (id : NodeId) :
    (s.getById id = .ok none ∧ s.ids[id.bytes]? = none) ∨
      ∃ n, s.getById id = .ok (some n) ∧ s.Holds n ∧ n.id = id := by
  unfold Store.getById
  cases entry : s.ids[id.bytes]? with
  | none => exact Or.inl ⟨rfl, rfl⟩
  | some value =>
    obtain ⟨n, holds, bytes, rfl⟩ := charted.pointed _ _ entry
    refine Or.inr ⟨n, ?_, holds, Digest.ext_bytes bytes⟩
    simp only [Bytes.toText_utf8]
    rw [charted.reads, holds]

end Children

end SeedTree.Store
