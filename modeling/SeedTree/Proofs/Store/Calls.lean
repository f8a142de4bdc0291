import SeedTree.Proofs.Store.View

/- What each call on a store does to its records. A regular store stays regular. -/
namespace SeedTree

/-- A node that stands at the same place in every index. -/
structure Node.SamePlace (n m : Node) : Prop where
  path : m.path = n.path
  name : m.name = n.name
  parent : m.parent = n.parent
  id : m.id = n.id

namespace Store

variable {scope : Scope} {p : Parameters} {s : Store} {n m : Node}

theorem Holds.unique {path : String} (here : s.record? path = some n)
    (there : s.record? path = some m) : n = m := Option.some.inj (here.symm.trans there)

section Charts

variable (charted : s.Charted)

theorem holds_put {t : Store} (absent : s.record? n.path = none)
    (put : ∀ path, t.record? path = if path = n.path then some n else s.record? path) :
    t.Holds m ↔ m = n ∨ s.Holds m := by
  rw [Holds, Holds, put]
  split
  · rename_i here
    rw [here, absent]
    simp [eq_comm]
  · rename_i apart
    constructor
    · exact Or.inr
    · rintro (rfl | old)
      · exact absurd rfl apart
      · exact old

theorem record?_eraseNode (s : Store) (n : Node) (path : String) :
    (s.eraseNode n.path n).record? path = if path = n.path then none else s.record? path :=
  record?_erased rfl path

theorem holds_eraseNode (s : Store) (n m : Node) :
    (s.eraseNode n.path n).Holds m ↔ s.Holds m ∧ m.path ≠ n.path := by
  rw [Holds, Holds, record?_eraseNode]
  split
  · rename_i here
    simp [here]
  · rename_i apart
    simp [apart]

def replaced (s : Store) (n : Node) : Store :=
  { s with nodes := s.nodes.insert (utf8 n.path) (Record.encode n) }

include charted

theorem Charted.insertNode (storable : n.Storable) (placed : n.Placed)
    (absent : s.record? n.path = none) :
    (s.insertNode n).Charted := by
  have gets := get_written (s := s) (t := s.insertNode n) storable rfl
  have records := record?_written (s := s) (t := s.insertNode n) storable rfl
  have holds := fun m => holds_put (m := m) absent records
  refine ⟨fun path => ?_, fun path m found => ?_, fun m held => ?_, fun key value => ?_,
    fun key value entry => ?_⟩
  · rw [gets, records]
    split
    · rfl
    · exact charted.reads path
  · rw [records] at found
    split at found
    · rename_i here
      cases found
      exact here.symm
    · exact charted.own path m found
  · rcases (holds m).mp held with rfl | old
    · exact placed
    · exact charted.placed m old
  · simp only [holds, or_and_right, exists_or, exists_eq_left]
    cases place : indexKey? n with
    | none =>
      have same : (s.insertNode n).children = s.children := by simp [Store.insertNode, place]
      rw [same, charted.indexed]
      simp
    | some own =>
      have grown : (s.insertNode n).children = s.children.insert own [] := by
        simp [Store.insertNode, place]
      rw [grown, getElem?_insert_ite]
      split
      · rename_i here
        simp [here, eq_comm]
      · rename_i apart
        rw [charted.indexed]
        simp [apart]
  · have grown : (s.insertNode n).ids = s.ids.insert n.id.bytes (utf8 n.path) := rfl
    rw [grown, getElem?_insert_ite] at entry
    simp only [holds]
    split at entry
    · rename_i here
      cases entry
      exact ⟨n, Or.inl rfl, here, rfl⟩
    · obtain ⟨m, held, id, path⟩ := charted.pointed key value entry
      exact ⟨m, Or.inr held, id, path⟩

theorem Charted.replaced (present : s.record? n.path = some n) (storable : m.Storable)
    (place : n.SamePlace m) : (s.replaced m).Charted := by
  have gets := get_written (s := s) (t := s.replaced m) storable rfl
  have records := record?_written (s := s) (t := s.replaced m) storable rfl
  have key_eq : indexKey? m = indexKey? n := by rw [indexKey?, indexKey?, place.parent, place.name]
  have later : ∀ k, s.Holds k → k = n ∨ (k.path ≠ m.path ∧ (s.replaced m).Holds k) := by
    intro k held
    by_cases here : k.path = m.path
    · exact Or.inl (Holds.unique held (by rw [here, place.path]; exact present))
    · exact Or.inr ⟨here, by rw [Holds, records, if_neg here]; exact held⟩
  have earlier : ∀ k, (s.replaced m).Holds k → k = m ∨ s.Holds k := by
    intro k held
    rw [Holds, records] at held
    split at held
    · exact Or.inl (Option.some.inj held).symm
    · exact Or.inr held
  have held : (s.replaced m).Holds m := by rw [Holds, records, if_pos rfl]
  refine ⟨fun path => ?_, fun path k found => ?_, fun k kept => ?_, fun key value => ?_,
    fun key value entry => ?_⟩
  · rw [gets, records]
    split
    · rfl
    · exact charted.reads path
  · rw [records] at found
    split at found
    · rename_i here
      cases found
      exact here.symm
    · exact charted.own path k found
  · rcases earlier k kept with rfl | old
    · intro folder below
      rw [place.path, place.name]
      exact charted.placed n present folder (by rw [← place.parent]; exact below)
    · exact charted.placed k old
  · have same : (s.replaced m).children = s.children := rfl
    rw [same, charted.indexed]
    refine and_congr_right fun _ => ⟨?_, ?_⟩
    · rintro ⟨k, kept, shape⟩
      rcases later k kept with rfl | ⟨_, kept'⟩
      · exact ⟨m, held, by rw [key_eq]; exact shape⟩
      · exact ⟨k, kept', shape⟩
    · rintro ⟨k, kept, shape⟩
      rcases earlier k kept with rfl | old
      · exact ⟨n, present, by rw [← key_eq]; exact shape⟩
      · exact ⟨k, old, shape⟩
  · obtain ⟨k, kept, id, path⟩ := charted.pointed key value entry
    rcases later k kept with rfl | ⟨_, kept'⟩
    · exact ⟨m, held, by rw [place.id]; exact id, by rw [path, place.path]⟩
    · exact ⟨k, kept', id, path⟩

theorem Charted.indexed_eraseNode (present : s.record? n.path = some n) :
    (s.eraseNode n.path n).Indexed := by
  have own := charted.placed n present
  have equal : ∀ m, s.Holds m → m.path = n.path → m = n := fun m held here =>
    Holds.unique held (by rw [here]; exact present)
  intro key value
  simp only [holds_eraseNode s n]
  cases place : indexKey? n with
  | none =>
    have same : (s.eraseNode n.path n).children = s.children := by simp [Store.eraseNode, place]
    rw [same, charted.indexed]
    refine and_congr_right fun _ => ⟨?_, ?_⟩
    · rintro ⟨m, held, shape⟩
      refine ⟨m, ⟨held, fun here => ?_⟩, shape⟩
      rw [equal m held here, place] at shape
      cases shape
    · rintro ⟨m, ⟨held, _⟩, shape⟩
      exact ⟨m, held, shape⟩
  | some kept =>
    have shrunk : (s.eraseNode n.path n).children = s.children.erase kept := by
      simp [Store.eraseNode, place]
    rw [shrunk, getElem?_erase_ite]
    split
    · rename_i here
      simp only [reduceCtorEq, false_iff, not_and, not_exists]
      intro _ m held shape
      have placed := charted.placed m held.1
      exact held.2 (path_eq_of_indexKey? placed own shape (by rw [place, here]))
    · rename_i apart
      rw [charted.indexed]
      refine and_congr_right fun _ => ⟨?_, ?_⟩
      · rintro ⟨m, held, shape⟩
        refine ⟨m, ⟨held, fun here => ?_⟩, shape⟩
        rw [equal m held here, place] at shape
        exact apart (Option.some.inj shape)
      · rintro ⟨m, ⟨held, _⟩, shape⟩
        exact ⟨m, held, shape⟩

theorem Charted.eraseNode (present : s.record? n.path = some n) :
    (s.eraseNode n.path n).Charted := by
  have gets := get_erased (s := s) (t := s.eraseNode n.path n) rfl
  have holds := holds_eraseNode s n
  refine ⟨fun path => ?_, fun path m found => ?_, fun m held => ?_,
    charted.indexed_eraseNode present, fun key value entry => ?_⟩
  · rw [gets, record?_eraseNode]
    split
    · rfl
    · exact charted.reads path
  · rw [record?_eraseNode] at found
    split at found
    · cases found
    · exact charted.own path m found
  · exact charted.placed m ((holds m).mp held).1
  · have shrunk : (s.eraseNode n.path n).ids = s.ids.erase n.id.bytes := rfl
    rw [shrunk, getElem?_erase_ite] at entry
    split at entry
    · cases entry
    · rename_i apart
      obtain ⟨m, held, id, path⟩ := charted.pointed key value entry
      refine ⟨m, (holds m).mpr ⟨held, fun here => ?_⟩, id, path⟩
      rw [Holds.unique held (by rw [here]; exact present)] at id
      exact apart id

theorem Charted.putIfAbsent_absent (absent : s.record? n.path = none) :
    s.putIfAbsent n = (.ok (n, true), s.insertNode n) := by
  have read := charted.reads n.path
  rw [absent, Store.get] at read
  rw [Store.putIfAbsent]
  cases entry : s.nodes[utf8 n.path]? with
  | none => rfl
  | some record =>
    cases decoded : decode record with
    | ok m => simp [entry, decoded] at read
    | error fault => simp [entry, decoded] at read

theorem Charted.putIfAbsent_present (present : s.record? n.path = some m) :
    s.putIfAbsent n = (.ok (m, false), s) := by
  have read := charted.reads n.path
  rw [present, Store.get] at read
  rw [Store.putIfAbsent]
  cases entry : s.nodes[utf8 n.path]? with
  | none => simp [entry, pure, Except.pure] at read
  | some record =>
    cases decoded : decode record with
    | ok k =>
      obtain rfl : k = m := by simpa [entry, decoded] using read
      simp [decoded, Except.map]
    | error fault => simp [entry, decoded] at read

theorem Charted.delete_present (present : s.record? n.path = some n) :
    s.delete n.path = (.ok true, s.eraseNode n.path n) := by
  rw [Store.delete, charted.reads, present]

theorem Charted.delete_absent {path : String} (absent : s.record? path = none) :
    s.delete path = (.ok false, s) := by
  rw [Store.delete, charted.reads, absent]

theorem Charted.update_absent {path : String} (absent : s.record? path = none)
    (change : Node → Option Node) : s.update path change = (.ok none, s) := by
  rw [Store.update, charted.reads, absent]

theorem Charted.update_unchanged {path : String} (present : s.record? path = some n)
    {change : Node → Option Node} (same : change n = none) :
    s.update path change = (.ok (some n), s) := by
  rw [Store.update, charted.reads, present]
  simp only [same]

theorem Charted.update_changed {path : String} (present : s.record? path = some n)
    {change : Node → Option Node} (new : change n = some m) (kept : m.path = n.path) :
    s.update path change = (.ok (some m), s.replaced m) := by
  have path_eq := charted.own path n present
  rw [Store.update, charted.reads, present]
  simp only [new, Store.replaced, kept, path_eq]

end Charts

section Insert

variable (regular : s.Regular scope p) (proper : n.Proper scope p)

include proper in
theorem record?_insertNode (path : String) :
    (s.insertNode n).record? path = if path = n.path then some n else s.record? path :=
  record?_written proper.fits.storable rfl path

include proper in
theorem holds_insertNode (absent : s.record? n.path = none) :
    (s.insertNode n).Holds m ↔ m = n ∨ s.Holds m := holds_put absent (record?_insertNode proper)

include proper in
theorem record?_insertNode_of_some {path : String} (absent : s.record? n.path = none)
    (found : s.record? path = some m) : (s.insertNode n).record? path = some m := by
  rw [record?_insertNode proper, if_neg, found]
  rintro rfl
  rw [absent] at found
  cases found

include regular proper

theorem Regular.insertNode (absent : s.record? n.path = none) :
    (s.insertNode n).Regular scope p := by
  have charted := regular.charted.insertNode proper.fits.storable proper.shaped.placed absent
  exact ⟨regular.sound.written proper rfl, charted.indexed, charted.pointed⟩

end Insert

def insertAll (s : Store) (nodes : List Node) : Store := nodes.foldl Store.insertNode s

section InsertAll

variable {nodes : List Node} (regular : s.Regular scope p)
  (proper : ∀ n ∈ nodes, n.Proper scope p) (absent : ∀ n ∈ nodes, s.record? n.path = none)
  (apart : nodes.Pairwise fun a b => a.path ≠ b.path)

theorem insertAll_absent (first : n.Proper scope p) (fresh : ∀ m ∈ nodes, n.path ≠ m.path)
    (absent : ∀ m ∈ nodes, s.record? m.path = none) :
    ∀ m ∈ nodes, (s.insertNode n).record? m.path = none := by
  intro m member
  rw [record?_insertNode first, if_neg (Ne.symm (fresh m member))]
  exact absent m member

include regular proper absent apart

theorem Regular.insertAll : (s.insertAll nodes).Regular scope p := by
  induction nodes generalizing s with
  | nil => exact regular
  | cons n nodes ih =>
    obtain ⟨fresh, apart⟩ := List.pairwise_cons.mp apart
    obtain ⟨first, proper⟩ := List.forall_mem_cons.mp proper
    obtain ⟨free, absent⟩ := List.forall_mem_cons.mp absent
    exact ih (regular.insertNode first free) proper
      (insertAll_absent first fresh absent) apart

omit regular in
theorem record?_insertAll (path : String) :
    (s.insertAll nodes).record? path = (nodes.find? (·.path = path)).or (s.record? path) := by
  induction nodes generalizing s with
  | nil => rfl
  | cons n nodes ih =>
    obtain ⟨fresh, apart⟩ := List.pairwise_cons.mp apart
    obtain ⟨first, proper⟩ := List.forall_mem_cons.mp proper
    obtain ⟨free, absent⟩ := List.forall_mem_cons.mp absent
    have rest := ih proper (insertAll_absent first fresh absent) apart
    rw [Store.insertAll, List.foldl_cons]
    rw [Store.insertAll] at rest
    rw [rest, record?_insertNode first]
    by_cases here : n.path = path
    · have none : nodes.find? (·.path = path) = none := by
        rw [List.find?_eq_none]
        intro m member same
        exact fresh m member (here.trans (of_decide_eq_true same).symm)
      rw [none, if_pos here.symm, List.find?_cons_of_pos (by simpa using here)]
      rfl
    · rw [if_neg (Ne.symm here), List.find?_cons_of_neg (by simpa using here)]

omit regular in
theorem record?_insertAll_of_some {path : String} (found : s.record? path = some n) :
    (s.insertAll nodes).record? path = some n := by
  have none : nodes.find? (·.path = path) = none := by
    refine List.find?_eq_none.mpr fun k member same => ?_
    have free := absent k member
    rw [of_decide_eq_true same, found] at free
    cases free
  rw [record?_insertAll proper absent apart, none, Option.none_or, found]

end InsertAll

section Update

variable (regular : s.Regular scope p) (present : s.record? n.path = some n)
  (proper : m.Proper scope p) (place : n.SamePlace m)

include proper in
theorem record?_replaced (path : String) :
    (s.replaced m).record? path = if path = m.path then some m else s.record? path :=
  record?_written proper.fits.storable rfl path

include proper in
theorem replaced_holds : (s.replaced m).Holds m := by
  rw [Holds, record?_replaced proper, if_pos rfl]

include proper in
theorem holds_replaced (holds : (s.replaced m).Holds k) : k = m ∨ s.Holds k := by
  rw [Holds, record?_replaced proper] at holds
  split at holds
  · exact Or.inl (Option.some.inj holds).symm
  · exact Or.inr holds

include proper in
theorem found_replaced {path : String} (found : s.record? path = some k) :
    ∃ l, (s.replaced m).record? path = some l := by
  rw [record?_replaced proper]
  split
  · exact ⟨m, rfl⟩
  · exact ⟨k, found⟩

include regular present proper place

theorem Regular.replaced : (s.replaced m).Regular scope p := by
  have charted := regular.charted.replaced present proper.fits.storable place
  exact ⟨regular.sound.written proper rfl, charted.indexed, charted.pointed⟩

end Update

section Erase

variable (regular : s.Regular scope p) (present : s.record? n.path = some n)

include regular present

theorem Regular.eraseNode : (s.eraseNode n.path n).Regular scope p := by
  have charted := regular.charted.eraseNode present
  exact ⟨regular.sound.erased rfl, charted.indexed, charted.pointed⟩

end Erase

end Store

namespace Store.Change

def Fits (scope : Scope) : Change → Prop
  | .markGenerated => True
  | .content _ now => now.isValid = true
  | .checksum text _ => IsShort text
  | .decision world _ => world ∈ scope.worlds
  | .redecision world _ => world ∈ scope.worlds

structure Keeps (n m : Node) : Prop where
  place : n.SamePlace m
  depth : m.depth = n.depth
  kind : m.kind = n.kind
  size : m.size = n.size
  generated : n.generated = true → m.generated = true

variable {scope : Scope} {p : Parameters} {n m : Node} {change : Change}

theorem keeps (changed : change.apply n = some m) : Keeps n m := by
  cases change with
  | markGenerated =>
    simp only [apply] at changed
    split at changed
    · cases changed
    · cases changed
      exact ⟨⟨rfl, rfl, rfl, rfl⟩, rfl, rfl, rfl, fun _ => rfl⟩
  | content upload now =>
    cases changed
    exact ⟨⟨rfl, rfl, rfl, rfl⟩, rfl, rfl, rfl, id⟩
  | checksum text computedFor =>
    simp only [apply] at changed
    split at changed
    · cases changed
    · cases changed
      exact ⟨⟨rfl, rfl, rfl, rfl⟩, rfl, rfl, rfl, id⟩
  | decision world present =>
    simp only [apply] at changed
    split at changed
    · cases changed
    · cases changed
      exact ⟨⟨rfl, rfl, rfl, rfl⟩, rfl, rfl, rfl, id⟩
  | redecision world present =>
    simp only [apply] at changed
    split at changed
    · cases changed
    · cases changed
      exact ⟨⟨rfl, rfl, rfl, rfl⟩, rfl, rfl, rfl, id⟩

theorem decision_cases {world : String} {present : Bool}
    (new : (Change.decision world present).apply n = some m) :
    n.existence[world]? = none ∧ m = { n with existence := n.existence.insert world present } := by
  simp only [apply] at new
  split at new
  · cases new
  · rename_i undecided
    cases new
    refine ⟨?_, rfl⟩
    cases found : n.existence[world]? with
    | none => rfl
    | some decided =>
      refine absurd ?_ undecided
      exact Std.ExtTreeMap.contains_iff_mem.mpr ((mem_iff_getElem?_some _ _).mpr ⟨decided, found⟩)

theorem decision_declined {world : String} {present : Bool}
    (declined : (Change.decision world present).apply n = none) :
    ∃ decided, n.existence[world]? = some decided := by
  simp only [apply, ite_eq_left_iff, reduceCtorEq, imp_false, Decidable.not_not] at declined
  exact (mem_iff_getElem?_some _ _).mp (Std.ExtTreeMap.contains_iff_mem.mp declined)

theorem redecision_cases {world : String} {present : Bool}
    (new : (Change.redecision world present).apply n = some m) :
    m = { n with existence := n.existence.insert world present } := by
  simp only [apply] at new
  split at new
  · cases new
  · exact (Option.some.inj new).symm

theorem redecision_declined {world : String} {present : Bool}
    (declined : (Change.redecision world present).apply n = none) :
    n.existence[world]? = some present := by
  simpa only [apply, ite_eq_left_iff, reduceCtorEq, imp_false, Decidable.not_not] using declined

theorem checksum_cases (changed : change.apply n = some m) :
    (m.checksum = n.checksum ∧ m.upload = n.upload) ∨ m.checksum = none ∨
      ∃ text, change = .checksum text n.upload ∧ m.checksum = some text ∧ m.upload = n.upload := by
  cases change with
  | content upload now =>
    cases changed
    exact Or.inr (Or.inl rfl)
  | checksum text computedFor =>
    simp only [apply] at changed
    split at changed
    · cases changed
    · rename_i stands
      cases changed
      have same : n.upload = computedFor := by
        by_contra differ
        exact stands (Or.inl differ)
      exact Or.inr (Or.inr ⟨text, by rw [same], rfl, rfl⟩)
  | markGenerated | decision world present | redecision world present =>
    simp only [apply] at changed
    split at changed
    · cases changed
    · cases changed
      exact Or.inl ⟨rfl, rfl⟩

theorem Keeps.refl (n : Node) : Keeps n n := ⟨⟨rfl, rfl, rfl, rfl⟩, rfl, rfl, rfl, id⟩

theorem Keeps.trans {l : Node} (left : Keeps n m) (right : Keeps m l) : Keeps n l where
  place := ⟨right.place.path.trans left.place.path, right.place.name.trans left.place.name,
    right.place.parent.trans left.place.parent, right.place.id.trans left.place.id⟩
  depth := right.depth.trans left.depth
  kind := right.kind.trans left.kind
  size := right.size.trans left.size
  generated := fun done => right.generated (left.generated done)

theorem Keeps.isFolder (keeps : Keeps n m) : m.isFolder = n.isFolder := by
  rw [Node.isFolder, Node.isFolder, keeps.kind]

theorem Keeps.shaped {seed : UInt64} (keeps : Keeps n m) (shaped : n.Shaped seed) :
    m.Shaped seed where
  normal := by rw [keeps.place.path]; exact shaped.normal
  parent := by rw [keeps.place.parent, keeps.place.path]; exact shaped.parent
  name := by rw [keeps.place.name, keeps.place.path]; exact shaped.name
  depth := by rw [keeps.depth, keeps.place.path]; exact shaped.depth
  size := by rw [keeps.size, keeps.kind]; exact shaped.size
  id := by rw [keeps.place.id, keeps.place.path]; exact shaped.id
  root := by rw [keeps.place.parent, keeps.isFolder]; exact shaped.root

theorem Keeps.shallow (keeps : Keeps n m) (shallow : n.Shallow p) : m.Shallow p := by
  intro folder fresh
  rw [keeps.place.path]
  refine shallow (by rw [← keeps.isFolder]; exact folder) ?_
  cases done : n.generated with
  | false => rfl
  | true =>
    rw [keeps.generated done] at fresh
    cases fresh

theorem insert_worlds {existence : NameMap Bool} {world : String} {present : Bool}
    (old : ∀ name, name ∈ existence → name ∈ scope.worlds) (new : world ∈ scope.worlds) :
    ∀ name, name ∈ existence.insert world present → name ∈ scope.worlds := by
  intro name member
  rcases Std.ExtTreeMap.mem_insert.mp member with same | early
  · rw [← Std.LawfulEqCmp.compare_eq_iff_eq.mp same]
    exact new
  · exact old name early

theorem Fits.node (small : change.Fits scope) (changed : change.apply n = some m)
    (fits : n.Fits scope) : m.Fits scope := by
  cases change with
  | markGenerated =>
    simp only [apply] at changed
    split at changed
    · cases changed
    · cases changed
      exact { fits with }
  | content upload now =>
    cases changed
    exact { fits with
      updated := small
      checksum := by
        intro text same
        cases same }
  | checksum text computedFor =>
    simp only [apply] at changed
    split at changed
    · cases changed
    · cases changed
      exact { fits with
        checksum := by
          intro other same
          cases same
          exact small }
  | decision world present =>
    simp only [apply] at changed
    split at changed
    · cases changed
    · cases changed
      exact { fits with worlds := insert_worlds fits.worlds small }
  | redecision world present =>
    simp only [apply] at changed
    split at changed
    · cases changed
    · cases changed
      exact { fits with worlds := insert_worlds fits.worlds small }

theorem Fits.proper (small : change.Fits scope) (changed : change.apply n = some m)
    (proper : n.Proper scope p) : m.Proper scope p :=
  ⟨small.node changed proper.fits, (keeps changed).shaped proper.shaped,
    (keeps changed).shallow proper.shallow⟩

end Store.Change

end SeedTree
