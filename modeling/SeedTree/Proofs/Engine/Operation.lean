import SeedTree.Proofs.Engine.Walks

/- The operations of an engine: how each is run, which paths it may make or remove, and which moves
   it may therefore take. -/
namespace SeedTree

inductive Operation where
  | getNode (path : String) (world : World)
  | listChildren (path : String) (world : World)
  | createFolder (parent : String) (world : World) (name : String)
  | createFolderAll (path : String) (world : World)
  | uploadFile (parent : String) (world : World) (name : String) (data : Bytes)
  | deleteNode (path : String) (world : World)
  | readContent (id : NodeId)
  | readRange (id : NodeId) (offset : UInt64) (length : Option UInt64)
  | checksum (path : String) (world : World)

namespace Operation

abbrev Answer : Operation → Type
  | .getNode .. | .createFolder .. | .createFolderAll .. | .uploadFile .. => Node
  | .listChildren .. => List Node
  | .deleteNode .. => Unit
  | .readContent .. => Bytes × String
  | .readRange .. => Bytes
  | .checksum .. => String

def run (e : Engine) : (r : Operation) → Attempt r.Answer
  | .getNode path world => e.getNode path world
  | .listChildren path world => e.listChildren path world
  | .createFolder parent world name => e.createFolder parent world name
  | .createFolderAll path world => e.createFolderAll path world
  | .uploadFile parent world name data => e.uploadFile parent world name data
  | .deleteNode path world => e.deleteNode path world
  | .readContent id => e.readContent id
  | .readRange id offset length => e.readRange id offset length
  | .checksum path world => e.checksum path world

/-- The paths at which an operation may make a node, or show or replace one that is there. -/
def Makes : Operation → String → Prop
  | .createFolder parent _ name, path | .uploadFile parent _ name _, path =>
    ∃ folder, Path.normalize parent = .ok folder ∧ Path.IsName name ∧ path = Path.join folder name
  | .createFolderAll whole _, path => ∃ full names, Path.normalize whole = .ok full ∧
      names ≠ [] ∧ names <+: Path.components full ∧ path = Path.ofNames names
  | _, _ => False

def Removes : Operation → String → Prop
  | .deleteNode input _, path => Path.normalize input = .ok path
  | _, _ => False

/-- The files whose checksum an operation may compute. A file is read by its identity, also where
its path was given. -/
def Hashes (seed : UInt64) : Operation → String → Prop
  | .readContent id, path | .readRange id _ _, path => nodeIdOf seed path = id
  | .checksum input _, path =>
    ∃ own, Path.normalize input = .ok own ∧ nodeIdOf seed path = nodeIdOf seed own
  | _, _ => False

def May (r : Operation) : Deed → Prop
  | .made path => r.Makes path
  | .changed path (.content _ _) => r.Makes path
  | .changed path (.redecision _ _) => r.Makes path
  | .removed path => r.Removes path
  | deed => deed.Reads

def Replaces (r : Operation) (succeeded : Bool) (path : String) : Prop :=
  match r with
  | .uploadFile .. => succeeded = true ∧ r.Makes path
  | _ => False

/-- The nodes that an operation shows in a world. Folders on the way are shown also when a folder
further down cannot be made. -/
def Shows (r : Operation) (succeeded : Bool) (decider path : String) : Prop :=
  match r with
  | .createFolder _ world _ | .uploadFile _ world _ _ =>
    succeeded = true ∧ world = .named decider ∧ r.Makes path
  | .createFolderAll _ world => world = .named decider ∧ r.Makes path
  | _ => False

/-- What an operation does to the records that it keeps. -/
def Does (r : Operation) (seed : UInt64) (succeeded : Bool) : Deed → Prop
  | .made path => r.Makes path
  | .changed path (.content _ _) => r.Replaces succeeded path
  | .changed path (.checksum _ _) => r.Hashes seed path
  | .changed path (.redecision decider _) => r.Shows succeeded decider path
  | deed => deed.Walks

def Reads : Operation → Prop
  | .getNode .. | .listChildren .. | .readContent .. | .readRange .. | .checksum .. => True
  | _ => False

/-- No text can be longer than memory, so the paths that an operation makes are short. -/
def Fits (r : Operation) : Prop := ∀ path, r.Makes path → IsShort path

theorem not_makes_of_reads {r : Operation} (reads : r.Reads) (path : String) : ¬ r.Makes path := by
  intro made
  cases r <;> first | exact reads | exact made

theorem fits_of_reads {r : Operation} (reads : r.Reads) : r.Fits :=
  fun path makes => absurd makes (not_makes_of_reads reads path)

section Fitting

variable {parent folder name : String} {world : World} {data : Bytes}
  (normalized : Path.normalize parent = .ok folder) (short : IsShort (Path.join folder name))

include normalized short

theorem short_made (path : String) (makes : ∃ above, Path.normalize parent = .ok above ∧
    Path.IsName name ∧ path = Path.join above name) : IsShort path := by
  obtain ⟨above, same, _, rfl⟩ := makes
  rw [normalized] at same
  cases same
  exact short

theorem fits_createFolder : (createFolder parent world name).Fits := short_made normalized short

theorem fits_uploadFile : (uploadFile parent world name data).Fits := short_made normalized short

end Fitting

structure Along (places : String → Prop) (here : String) (names : List String) : Prop where
  normal : Path.IsNormal here
  valid : ∀ name ∈ names, Path.IsName name
  makes : ∀ more, more <+: names → more ≠ [] → places (more.foldl Path.join here)

namespace Along

variable {places : String → Prop} {here name : String} {more : List String}

theorem next (along : Along places here (name :: more)) :
    Along places (Path.join here name) more := by
  obtain ⟨named, valid⟩ := List.forall_mem_cons.mp along.valid
  refine ⟨Path.isNormal_join along.normal named, valid, ?_⟩
  intro rest start some
  exact along.makes (name :: rest) (List.cons_prefix_cons.mpr ⟨rfl, start⟩) (List.cons_ne_nil _ _)

theorem makes_next (along : Along places here (name :: more)) (folder : String)
    (same : Path.normalize here = .ok folder) (_ : Path.IsName name) :
    places (Path.join folder name) := by
  rw [along.normal] at same
  cases same
  exact along.makes [name] (List.cons_prefix_cons.mpr ⟨rfl, List.nil_prefix⟩) (List.cons_ne_nil _ _)

end Along

theorem along_root {places : String → Prop} {path : String} (normal : Path.IsNormal path)
    (makes : ∀ names, names ≠ [] → names <+: Path.components path → places (Path.ofNames names)) :
    Along places Path.root (Path.components path) := by
  have valid := normal.components.1
  refine ⟨Path.isNormal_root, valid, ?_⟩
  intro more start some
  have inside : ∀ name ∈ [] ++ more, Path.IsName name := fun name member =>
    valid name (start.subset member)
  rw [← Path.ofNames_nil, Path.foldl_join_ofNames inside]
  exact makes more some start

theorem does_of_walks {r : Operation} {seed : UInt64} {succeeded : Bool} {deed : Deed}
    (walks : deed.Walks) : r.Does seed succeeded deed := by
  cases deed with
  | changed path change => cases change <;> first | exact walks | exact walks.elim
  | expanded folder => exact walks
  | made path => exact walks.elim
  | removed path => exact walks.elim

theorem does_of_sums {r : Operation} {seed : UInt64} {succeeded : Bool} {deed : Deed}
    (sums : deed.Sums (r.Hashes seed)) : r.Does seed succeeded deed := by
  cases deed with
  | changed path change => cases change <;> first | exact sums | exact sums.elim
  | expanded folder => exact sums
  | made path => exact sums.elim
  | removed path => exact sums.elim

theorem Replaces.makes {r : Operation} {succeeded : Bool} {path : String}
    (replaces : r.Replaces succeeded path) : r.Makes path := by
  cases r <;> first | exact replaces.2 | exact replaces.elim

theorem Shows.makes {r : Operation} {succeeded : Bool} {decider path : String}
    (shown : r.Shows succeeded decider path) : r.Makes path := by
  cases r <;> first | exact shown.2.2 | exact shown.2 | exact shown.elim

theorem Does.may {r : Operation} {seed : UInt64} {succeeded : Bool} {deed : Deed}
    (does : r.Does seed succeeded deed) : r.May deed := by
  cases deed with
  | changed path change =>
    cases change with
    | content upload time => exact Replaces.makes does
    | redecision decider present => exact Shows.makes does
    | checksum text computedFor => trivial
    | _ => exact does
  | removed path => exact does.elim
  | _ => exact does

theorem reads_of_may {r : Operation} (reads : r.Reads) {deed : Deed} (may : r.May deed) :
    deed.Reads := by
  have makes := not_makes_of_reads reads
  cases deed with
  | expanded folder => exact may
  | changed path change =>
    cases change with
    | markGenerated => exact may
    | content upload time => exact makes path may
    | checksum text computedFor => exact may
    | decision world present => exact may
    | redecision world present => exact makes path may
  | made path => exact makes path may
  | removed path => cases r <;> first | exact reads | exact may

end Operation

/-- How an operation leaves a store: by what it does to the records that it keeps, and a deletion at
last removes one. -/
inductive Operation.Leaves (m : Materializer) (scope : Scope) (r : Operation)
    (succeeded : Bool) (s : Store) : Store → Prop where
  | kept {t : Store} (moves : Moves m scope (r.Does m.parameters.seed succeeded) s t) :
      Leaves m scope r succeeded s t
  | removed {t : Store} {n : Node} (moves : Moves m scope (r.Does m.parameters.seed succeeded) s t)
      (removes : r.Removes n.path) (holds : t.Holds n) (below : n.parent ≠ none)
      (empty : ∀ k, t.Holds k → k.parent ≠ some n.path) :
      Leaves m scope r succeeded s (t.eraseNode n.path n)

theorem Operation.Leaves.moves {m : Materializer} {scope : Scope} {r : Operation} {succeeded : Bool}
    {s t : Store} (leaves : r.Leaves m scope succeeded s t) : Moves m scope r.May s t := by
  cases leaves with
  | kept moves => exact moves.mono fun _ => Does.may
  | removed moves removes holds below empty =>
    have may : r.May (.removed _) := removes
    exact (moves.mono fun _ => Does.may).append (.one may (.removed holds below empty))

/-- Deeds that allow to make a folder or a file at a path, or to show in a world what is there. -/
structure Deed.Founding (may : Deed → Prop) (world : World) (path : String) : Prop where
  short : IsShort path
  made : may (.made path)
  shown : ∀ decider, world = .named decider → may (.changed path (.redecision decider true))

namespace Operation

variable {input name : String} {world : World} {seed : UInt64}

theorem founds_createFolder (fits : (createFolder input world name).Fits) (folder : String)
    (normalized : Path.normalize input = .ok folder) (named : Path.IsName name) :
    Deed.Founding ((createFolder input world name).Does seed true) world (Path.join folder name) :=
  have makes : (createFolder input world name).Makes (Path.join folder name) :=
    ⟨folder, normalized, named, rfl⟩
  ⟨fits _ makes, makes, fun _ decides => ⟨rfl, decides, makes⟩⟩

theorem founds_uploadFile {data : Bytes} (fits : (uploadFile input world name data).Fits)
    (folder : String) (normalized : Path.normalize input = .ok folder) (named : Path.IsName name) :
    Deed.Founding ((uploadFile input world name data).Does seed true) world
      (Path.join folder name) ∧
      ∀ upload time, (uploadFile input world name data).Does seed true
        (.changed (Path.join folder name) (.content upload time)) :=
  have makes : (uploadFile input world name data).Makes (Path.join folder name) :=
    ⟨folder, normalized, named, rfl⟩
  ⟨⟨fits _ makes, makes, fun _ decides => ⟨rfl, decides, makes⟩⟩, fun _ _ => ⟨rfl, makes⟩⟩

theorem founds_createFolderAll (fits : (createFolderAll input world).Fits) (full : String)
    (names : List String) (normalized : Path.normalize input = .ok full) (some : names ≠ [])
    (start : names <+: Path.components full) : Deed.Founding
      (fun deed => ∀ succeeded, (createFolderAll input world).Does seed succeeded deed) world
      (Path.ofNames names) :=
  have makes : (createFolderAll input world).Makes (Path.ofNames names) :=
    ⟨full, names, normalized, some, start, rfl⟩
  ⟨fits _ makes, fun _ => makes, fun _ decides _ => ⟨decides, makes⟩⟩

end Operation

/-- An engine that has been started with parameters, and a table of worlds within the scope. -/
structure Engine.Ready (scope : Scope) (p : Parameters) (e : Engine) : Prop where
  config : e.config.parameters = p
  parameters : e.materializer.parameters = p
  within : e.materializer.worlds.Within scope

section Checks

variable {e : Engine} {scope : Scope} {p : Parameters}

theorem Engine.Ready.mem_worlds (ready : e.Ready scope p) {world : World}
    (checked : e.worlds.check world = .ok ()) : world.name ∈ scope.worlds := by
  unfold WorldTable.check WorldTable.resolve at checked
  split at checked
  · rename_i primary
    rw [primary]
    exact scope.primary
  · split at checked
    · rename_i listed
      exact ready.within world.name (Std.ExtTreeMap.contains_iff_mem.mp listed)
    · cases checked

end Checks

end SeedTree
