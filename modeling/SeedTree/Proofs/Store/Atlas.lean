import SeedTree.Proofs.Store.Lawful

/- A store as one map. It keeps its records and two indexes side by side, and the children of all
   folders in one row of keys; whatever calls are made on it, each is answered as a single map from
   paths to nodes would answer it. -/
namespace SeedTree

abbrev Atlas := NameMap Node

/-- A node as a root or a child is built: below the root it stands in its folder under its name, and
its identity follows from its path. -/
structure Node.Built (scope : Scope) (identify : String → NodeId) (n : Node) : Prop where
  fits : n.Fits scope
  placed : n.Placed
  id : n.id = identify n.path

namespace Node

variable {scope : Scope} {identify : String → NodeId} {time : Moment}

theorem built_root (valid : time.isValid = true) :
    (root (identify Path.root) time).Built scope identify where
  fits := fits_root valid
  placed := by
    intro folder below
    cases below
  id := rfl

theorem built_child {folder : Node} {name : String} {kind : NodeKind} {existence : NameMap Bool}
    (normal : Path.IsNormal folder.path) (named : Path.IsName name)
    (short : IsShort (Path.join folder.path name)) (valid : time.isValid = true)
    (worlds : ∀ world, world ∈ existence → world ∈ scope.worlds) :
    (child (identify (Path.join folder.path name)) folder name kind existence time).Built scope
      identify where
  fits := fits_child short valid worlds
  placed := by
    rintro _ ⟨rfl⟩
    exact ⟨normal, named, rfl⟩
  id := rfl

end Node

namespace Atlas

def Has (m : Atlas) (n : Node) : Prop := ∃ path : String, m[path]? = some n

/-- What a call makes of the map. The first node put at a path stays until it is deleted. -/
def next (m : Atlas) : Store.Call → Atlas
  | .putIfAbsent n => if n.path ∈ m then m else m.insert n.path n
  | .delete path => m.erase path
  | .change path edit =>
    match m[path]?.bind edit.apply with
    | some changed => m.insert path changed
    | none => m
  | _ => m

/-- The answers of the map. Fingerprints are none of its business. -/
def Answers (m : Atlas) : (call : Store.Call) → call.Answer → Prop
  | .get path, found => found = m[path]?
  | .getById id, found => ∀ n, found = some n ↔ m.Has n ∧ n.id = id
  | .putIfAbsent n, (kept, inserted) => kept = m[n.path]?.getD n ∧ (inserted = true ↔ n.path ∉ m)
  | .listChildren folder, children =>
    (∀ n, n ∈ children ↔ m.Has n ∧ n.parent = some folder) ∧
      children.Pairwise fun a b => Bytes.order (utf8 a.name) (utf8 b.name) = .lt
  | .hasChildren folder, occupied => occupied = true ↔ ∃ n, m.Has n ∧ n.parent = some folder
  | .delete path, removed => removed = true ↔ path ∈ m
  | .change path edit, found => found = m[path]?.map fun n => (edit.apply n).getD n
  | .ensureFingerprint _, _ => True
  | .count, count => count = m.size

end Atlas

namespace Store

variable {scope : Scope} {identify : String → NodeId} {paths : List String} {s : Store} {m : Atlas}
  {n : Node}

/-- Nodes that are put are built as a root or a child is; every other call may have any arguments
that a machine can hold. -/
def Call.Built (scope : Scope) (identify : String → NodeId) : Call → Prop
  | .putIfAbsent n => n.Built scope identify
  | .change _ edit => edit.Fits scope
  | _ => True

def Separates (identify : String → NodeId) (paths : List String) : Prop :=
  ∀ a ∈ paths, ∀ b ∈ paths, identify a = identify b → a = b

instance (identify : String → NodeId) (paths : List String) :
    Decidable (Separates identify paths) :=
  inferInstanceAs (Decidable (∀ a ∈ paths, ∀ b ∈ paths, identify a = identify b → a = b))

def after (s : Store) (calls : List Call) : Store :=
  calls.foldl (fun s call => (s.perform call).2) s

/-- The records of the store are the nodes of the map, all built at some of the paths, and its
indexes hold all of them. -/
structure Maps (scope : Scope) (identify : String → NodeId) (paths : List String) (s : Store)
    (m : Atlas) : Prop where
  charted : s.Charted
  entered : s.Entered
  record : ∀ path, s.record? path = m[path]?
  built : ∀ n, s.Holds n → n.Built scope identify
  within : ∀ n, s.Holds n → n.path ∈ paths
  size : s.nodes.size = m.size

theorem Charted.mem_nodes (charted : s.Charted) (path : String) :
    utf8 path ∈ s.nodes ↔ ∃ n, s.record? path = some n := by
  have read := charted.reads path
  rw [Store.get] at read
  rw [mem_iff_getElem?_some]
  cases entry : s.nodes[utf8 path]? with
  | none =>
    have absent : s.record? path = none := by simpa [entry, pure, Except.pure, eq_comm] using read
    simp [absent]
  | some record =>
    cases decoded : decode record with
    | ok n =>
      have present : s.record? path = some n := by simpa [entry, decoded, eq_comm] using read
      simp [present]
    | error fault => simp [entry, decoded] at read

section Step

variable (maps : s.Maps scope identify paths m)

include maps

theorem Maps.mem_iff (path : String) : path ∈ m ↔ ∃ n, s.record? path = some n := by
  rw [mem_iff_getElem?_some, maps.record]

theorem Maps.contains_nodes (path : String) : s.nodes.contains (utf8 path) = m.contains path := by
  rw [Bool.eq_iff_iff, Std.ExtTreeMap.contains_iff_mem, Std.ExtTreeMap.contains_iff_mem,
    maps.charted.mem_nodes, maps.mem_iff]

theorem Maps.has_iff (n : Node) : m.Has n ↔ s.Holds n := by
  constructor
  · rintro ⟨path, found⟩
    rw [← maps.record] at found
    rw [Holds, maps.charted.own path n found, found]
  · intro holds
    exact ⟨n.path, by rw [← maps.record, holds]⟩

theorem Maps.getById (id : NodeId) :
    ∃ found, s.getById id = .ok found ∧ ∀ n, found = some n ↔ m.Has n ∧ n.id = id := by
  rcases maps.charted.getById id with ⟨read, missing⟩ | ⟨k, read, holds, same⟩
  · refine ⟨none, read, fun n => ?_⟩
    simp only [reduceCtorEq, false_iff, not_and, maps.has_iff]
    rintro holds rfl
    rw [maps.entered n holds] at missing
    cases missing
  · refine ⟨some k, read, fun n => ?_⟩
    rw [maps.has_iff]
    constructor
    · rintro ⟨rfl⟩
      exact ⟨holds, same⟩
    · rintro ⟨holds', same'⟩
      have first := maps.entered k holds
      have second := maps.entered n holds'
      rw [same', ← same, first] at second
      have path := utf8_injective (Option.some.inj second)
      rw [Holds, ← path, holds] at holds'
      exact holds'

theorem Maps.path_eq (separates : Separates identify paths) (built : n.Built scope identify)
    (here : n.path ∈ paths) {k : Node} (holds : s.Holds k) (same : k.id = n.id) :
    k.path = n.path := by
  refine separates _ (maps.within k holds) _ here ?_
  rw [← (maps.built k holds).id, ← built.id, same]

theorem Maps.put (separates : Separates identify paths) (absent : s.record? n.path = none)
    (built : n.Built scope identify) (here : n.path ∈ paths) :
    (s.insertNode n).Maps scope identify paths (m.insert n.path n) := by
  have records := record?_written (s := s) (t := s.insertNode n) built.fits.storable rfl
  have holds := fun k => holds_put (m := k) absent records
  refine ⟨maps.charted.insertNode built.fits.storable built.placed absent, ?_, ?_, ?_, ?_, ?_⟩
  · intro k held
    have grown : (s.insertNode n).ids = s.ids.insert n.id.bytes (utf8 n.path) := rfl
    rw [grown, getElem?_insert_ite]
    rcases (holds k).mp held with rfl | old
    · rw [if_pos rfl]
    · split
      · rename_i same
        rw [maps.path_eq separates built here old (Digest.ext_bytes same.symm)]
      · exact maps.entered k old
  · intro path
    rw [records, getElem?_insert_ite, maps.record]
    simp only [eq_comm]
  · intro k held
    rcases (holds k).mp held with rfl | old
    · exact built
    · exact maps.built k old
  · intro k held
    rcases (holds k).mp held with rfl | old
    · exact here
    · exact maps.within k old
  · have grown : (s.insertNode n).nodes = s.nodes.insert (utf8 n.path) (Record.encode n) := rfl
    rw [grown, Std.ExtTreeMap.size_insert, Std.ExtTreeMap.size_insert,
      maps.contains_nodes, maps.size]

theorem Maps.changed {k : Node} {change : Change} (present : s.record? n.path = some n)
    (applied : change.apply n = some k) (fits : change.Fits scope) :
    (s.replaced k).Maps scope identify paths (m.insert n.path k) := by
  have place := (Change.keeps applied).place
  have built := maps.built n present
  have storable := fits.node applied built.fits
  have records := record?_written (s := s) (t := s.replaced k) storable.storable rfl
  have charted := maps.charted.replaced present storable.storable place
  have held : (s.replaced k).Holds k := by rw [Holds, records, if_pos rfl]
  have earlier : ∀ l, (s.replaced k).Holds l → l = k ∨ s.Holds l := by
    intro l held
    rw [Holds, records] at held
    split at held
    · exact Or.inl (Option.some.inj held).symm
    · exact Or.inr held
  refine ⟨charted, ?_, ?_, ?_, ?_, ?_⟩
  · intro l held
    have same : (s.replaced k).ids = s.ids := rfl
    rw [same]
    rcases earlier l held with rfl | old
    · rw [place.id, place.path]
      exact maps.entered n present
    · exact maps.entered l old
  · intro path
    rw [records, getElem?_insert_ite, maps.record, place.path]
    simp only [eq_comm]
  · intro l held'
    rcases earlier l held' with rfl | old
    · exact ⟨storable, charted.placed l held, by rw [place.id, place.path]; exact built.id⟩
    · exact maps.built l old
  · intro l held'
    rcases earlier l held' with rfl | old
    · rw [place.path]
      exact maps.within n present
    · exact maps.within l old
  · have kept : (s.replaced k).nodes = s.nodes.insert (utf8 k.path) (Record.encode k) := rfl
    rw [kept, place.path, Std.ExtTreeMap.size_insert, Std.ExtTreeMap.size_insert,
      maps.contains_nodes, maps.size]

theorem Maps.deleted (separates : Separates identify paths) (present : s.record? n.path = some n) :
    (s.eraseNode n.path n).Maps scope identify paths (m.erase n.path) := by
  have holds := holds_eraseNode s n
  refine ⟨maps.charted.eraseNode present, ?_, ?_, ?_, ?_, ?_⟩
  · intro k held
    obtain ⟨old, other⟩ := (holds k).mp held
    have shrunk : (s.eraseNode n.path n).ids = s.ids.erase n.id.bytes := rfl
    rw [shrunk, getElem?_erase_ite]
    split
    · rename_i same
      have id := Digest.ext_bytes same.symm
      exact absurd (maps.path_eq separates (maps.built n present)
        (maps.within n present) old id) other
    · exact maps.entered k old
  · intro path
    rw [record?_eraseNode, getElem?_erase_ite, maps.record]
    simp only [eq_comm]
  · intro k held
    exact maps.built k ((holds k).mp held).1
  · intro k held
    exact maps.within k ((holds k).mp held).1
  · have shrunk : (s.eraseNode n.path n).nodes = s.nodes.erase (utf8 n.path) := rfl
    rw [shrunk, Std.ExtTreeMap.size_erase, Std.ExtTreeMap.size_erase,
      maps.contains_nodes, maps.size]

def Follows (s : Store) (scope : Scope) (identify : String → Digest)
    (paths : List String) (m : Atlas) (call : Call) : Prop :=
  (s.perform call).2.Maps scope identify paths (m.next call) ∧
    ∃ answer, (s.perform call).1 = .ok answer ∧ m.Answers call answer

theorem Maps.follows_putIfAbsent (separates : Separates identify paths)
    (built : (Call.putIfAbsent n).Built scope identify) (here : n.path ∈ paths) :
    s.Follows scope identify paths m (.putIfAbsent n) := by
  unfold Follows
  cases found : s.record? n.path with
  | none =>
    have free : n.path ∉ m := by simp [maps.mem_iff, found]
    have entry : m[n.path]? = none := by rw [← maps.record, found]
    simp only [Store.perform, maps.charted.putIfAbsent_absent found, Atlas.next, if_neg free]
    exact ⟨maps.put separates found built here, (n, true), rfl, by simp [entry], by simp [free]⟩
  | some k =>
    have there : n.path ∈ m := by simp [maps.mem_iff, found]
    have entry : m[n.path]? = some k := by rw [← maps.record, found]
    simp only [Store.perform, maps.charted.putIfAbsent_present found, Atlas.next, if_pos there]
    exact ⟨maps, (k, false), rfl, by simp [entry], by simp [there]⟩

theorem Maps.follows_delete (separates : Separates identify paths) (path : String) :
    s.Follows scope identify paths m (.delete path) := by
  unfold Follows
  cases found : s.record? path with
  | none =>
    have free : path ∉ m := by simp [maps.mem_iff, found]
    have same : m.erase path = m := by
      refine Std.ExtTreeMap.ext_getElem? fun other => ?_
      rw [getElem?_erase_ite]
      split
      · rename_i equal
        rw [← equal, ← maps.record, found]
      · rfl
    simp only [Store.perform, maps.charted.delete_absent found, Atlas.next, same]
    exact ⟨maps, false, rfl, by simp [Atlas.Answers, free]⟩
  | some n =>
    obtain rfl := maps.charted.own path n found
    have there : n.path ∈ m := by simp [maps.mem_iff, found]
    simp only [Store.perform, maps.charted.delete_present found, Atlas.next]
    exact ⟨maps.deleted separates found, true, rfl, by simp [Atlas.Answers, there]⟩

theorem Maps.follows_change {edit : Change} (path : String) (fits : edit.Fits scope) :
    s.Follows scope identify paths m (.change path edit) := by
  unfold Follows
  have entry := maps.record path
  cases found : s.record? path with
  | none =>
    rw [found] at entry
    simp only [Store.perform, maps.charted.update_absent found, Atlas.next,
      ← entry, Option.bind_none]
    exact ⟨maps, none, rfl, by simp [Atlas.Answers, ← entry]⟩
  | some n =>
    rw [found] at entry
    obtain rfl := maps.charted.own path n found
    cases applied : edit.apply n with
    | none =>
      simp only [Store.perform, maps.charted.update_unchanged found applied, Atlas.next, ← entry,
        Option.bind_some, applied]
      exact ⟨maps, some n, rfl, by simp [Atlas.Answers, ← entry, applied]⟩
    | some k =>
      have path := (Change.keeps applied).place.path
      simp only [Store.perform, maps.charted.update_changed found applied path, Atlas.next, ← entry,
        Option.bind_some, applied]
      exact ⟨maps.changed found applied fits, some k, rfl,
        by simp [Atlas.Answers, ← entry, applied]⟩

theorem Maps.perform (separates : Separates identify paths) {call : Call}
    (built : call.Built scope identify) (here : ∀ path ∈ call.puts, path ∈ paths) :
    s.Follows scope identify paths m call := by
  cases call with
  | get path => exact ⟨maps, s.record? path, maps.charted.reads path, maps.record path⟩
  | getById id => exact ⟨maps, maps.getById id⟩
  | putIfAbsent n => exact maps.follows_putIfAbsent separates built (here _ (by simp [Call.puts]))
  | listChildren folder =>
    obtain ⟨found, read, members, sorted⟩ := maps.charted.listChildren folder
    exact ⟨maps, found, read, fun n => by rw [members, maps.has_iff], sorted⟩
  | hasChildren folder =>
    refine ⟨maps, s.hasChildren folder, rfl, ?_⟩
    rw [Atlas.Answers, maps.charted.hasChildren_iff]
    simp only [maps.has_iff]
  | delete path => exact maps.follows_delete separates path
  | change path edit => exact maps.follows_change path built
  | ensureFingerprint fingerprint =>
    refine ⟨?_, _, rfl, trivial⟩
    simp only [Store.perform, Store.ensureFingerprint, Atlas.next]
    split
    · exact { maps with charted := { maps.charted with } }
    · exact maps
  | count => exact ⟨maps, s.count, rfl, maps.size⟩

end Step

theorem Maps.after {calls : List Call} (maps : s.Maps scope identify paths m)
    (separates : Separates identify paths) (built : ∀ call ∈ calls, call.Built scope identify)
    (here : ∀ call ∈ calls, ∀ path ∈ call.puts, path ∈ paths) :
    (s.after calls).Maps scope identify paths (calls.foldl Atlas.next m) := by
  induction calls generalizing s m with
  | nil => exact maps
  | cons call calls ih =>
    obtain ⟨first, built⟩ := List.forall_mem_cons.mp built
    obtain ⟨first_here, here⟩ := List.forall_mem_cons.mp here
    exact ih (maps.perform separates first first_here).1 built here

theorem maps_empty : Store.empty.Maps scope identify paths ∅ := by
  have nothing : ∀ path, Store.empty.record? path = none := fun path => by
    simp [record?, Store.get, Store.empty, pure, Except.pure]
  have none : ∀ n, ¬ Store.empty.Holds n := fun n => by simp [Holds, nothing]
  refine ⟨⟨fun path => ?_, fun path n found => ?_, fun n holds => absurd holds (none n), ?_, ?_⟩,
    fun n holds => absurd holds (none n), fun path => ?_, fun n holds => absurd holds (none n),
    fun n holds => absurd holds (none n), rfl⟩
  · rw [nothing]
    simp [Store.get, Store.empty, pure, Except.pure]
  · rw [nothing] at found
    cases found
  · intro key value
    have unlisted : Store.empty.children[key]? = Option.none := by simp [Store.empty]
    simp [unlisted, none]
  · intro key value entry
    simp [Store.empty] at entry
  · rw [nothing]
    simp

/-- Whatever calls were made on a store that began empty, the next one is answered, and as the map
to which the same calls were made answers it. The paths that were put have to have identities of
their own. -/
theorem calls_follow_one_map {calls : List Call} {call : Call}
    (built : ∀ made ∈ calls ++ [call], made.Built scope identify)
    (separates : Separates identify ((calls ++ [call]).flatMap Call.puts)) :
    ∃ answer, ((Store.empty.after calls).perform call).1 = .ok answer ∧
      (calls.foldl Atlas.next ∅).Answers call answer := by
  have here : ∀ made ∈ calls ++ [call], ∀ path ∈ made.puts,
      path ∈ (calls ++ [call]).flatMap Call.puts :=
    fun made member path put => List.mem_flatMap.mpr ⟨made, member, put⟩
  obtain ⟨early, last⟩ := List.forall_mem_append.mp built
  obtain ⟨early_here, last_here⟩ := List.forall_mem_append.mp here
  have maps := maps_empty.after separates early early_here
  exact (maps.perform separates (last call (by simp)) (last_here call (by simp))).2

section Sample

def sampleRoot : Node := .root (nodeIdOf 42 Path.root) .epoch

def sampleChild (folder : Node) (name : String) (kind : NodeKind) : Node :=
  .child (nodeIdOf 42 (Path.join folder.path name)) folder name kind ∅ .epoch

/-- Two folders, the one's path the beginning of the other's, a file in each, and the first folder
deleted with its file in it. -/
def sampleCalls : List Call :=
  let a := sampleChild sampleRoot "a" .folder
  let ab := sampleChild sampleRoot "ab" .folder
  [.putIfAbsent sampleRoot, .putIfAbsent ab, .putIfAbsent a,
    .putIfAbsent (sampleChild ab "c" .file),
    .putIfAbsent (sampleChild a "b" .file), .change "/a" .markGenerated, .delete "/a"]

theorem sampleCalls_listed :
    ∃ children, (Store.empty.after sampleCalls).listChildren "/a" = .ok children ∧
    (∀ n, n ∈ children ↔ Atlas.Has (sampleCalls.foldl Atlas.next ∅) n ∧ n.parent = some "/a") ∧
    children.Pairwise fun a b => Bytes.order (utf8 a.name) (utf8 b.name) = .lt := by
  have child : ∀ folder name kind, Path.IsNormal folder.path → Path.IsName name →
      IsShort (Path.join folder.path name) →
      (Call.putIfAbsent (sampleChild folder name kind)).Built .bare (nodeIdOf 42) :=
    fun folder name kind normal named short =>
      Node.built_child normal named short (by decide)
        fun world member => absurd member Std.ExtTreeMap.not_mem_empty
  have top : Path.IsNormal sampleRoot.path := Path.isNormal_root
  have built : ∀ made ∈ sampleCalls ++ [.listChildren "/a"], made.Built .bare (nodeIdOf 42) := by
    simp only [sampleCalls, List.cons_append, List.nil_append, List.forall_mem_cons]
    refine ⟨Node.built_root (by decide), ?_, ?_, ?_, ?_, trivial, trivial, trivial, by simp⟩
    · exact child _ _ _ top (by decide +kernel) (by decide +kernel)
    · exact child _ _ _ top (by decide +kernel) (by decide +kernel)
    · exact child _ _ _ (Path.isNormal_join top (by decide +kernel))
        (by decide +kernel) (by decide +kernel)
    · exact child _ _ _ (Path.isNormal_join top (by decide +kernel))
        (by decide +kernel) (by decide +kernel)
  exact calls_follow_one_map built (by decide +kernel)

end Sample

end Store

end SeedTree
