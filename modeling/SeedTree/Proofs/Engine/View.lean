import SeedTree.Proofs.Engine.Move

/- What a store shows, whether it has been generated yet or not. The view of a store answers for any
   names below a node; moves that only read leave it as it is. -/
namespace SeedTree

/-- Both fail alike, or both succeed with related values. -/
def Agree {α β : Type} (related : α → β → Prop) : Except Failure α → Except Failure β → Prop
  | .ok a, .ok b => related a b
  | .error failure, .error other => failure = other
  | _, _ => False

theorem of_bind_ok {α β : Type} {x : Except Failure α} {f : α → Except Failure β} {b : β}
    (done : x.bind f = .ok b) : ∃ a, x = .ok a ∧ f a = .ok b := by
  cases x with
  | error failure => cases done
  | ok a => exact ⟨a, rfl, done⟩

theorem Agree.trans {α β γ : Type} {first : α → β → Prop} {second : β → γ → Prop}
    {third : α → γ → Prop} (both : ∀ a b c, first a b → second b c → third a c)
    {x : Except Failure α} {y : Except Failure β} {z : Except Failure γ}
    (left : Agree first x y) (right : Agree second y z) : Agree third x z := by
  cases x <;> cases y <;> cases z <;> simp only [Agree] at left right ⊢
  · exact left.trans right
  · exact both _ _ _ left right

theorem Agree.eq_error {α β : Type} {related : α → β → Prop} {x : Except Failure α}
    {failure : Failure} (agree : Agree related x (.error failure)) : x = .error failure := by
  cases x with
  | error other => rw [show other = failure from agree]
  | ok a => exact agree.elim

theorem Agree.of_ok {α β : Type} {related : α → β → Prop} {x : Except Failure α} {b : β}
    (agree : Agree related x (.ok b)) : ∃ a, x = .ok a ∧ related a b := by
  cases x with
  | error other => exact agree.elim
  | ok a => exact ⟨a, rfl, agree⟩

theorem Agree.refl {α : Type} (x : Except Failure α) : Agree Eq x x := by
  cases x <;> rfl

theorem Agree.map_eq {α β : Type} {f : β → α} {x : Except Failure α} {y : Except Failure β}
    (agree : Agree (fun a b => f b = a) x y) : y.map f = x := by
  cases x <;> cases y <;> simp only [Agree] at agree
  · rw [agree]
    rfl
  · rw [← agree]
    rfl

theorem Agree.self {α : Type} {related : α → α → Prop} {x : Except Failure (Option α)}
    (same : ∀ a, x = .ok (some a) → related a a) : Agree (Option.Rel related) x x := by
  cases x with
  | error failure => rfl
  | ok found =>
    cases found with
    | none => exact .none
    | some a => exact .some (same a rfl)

theorem Agree.bind {α β γ δ : Type} {first : α → β → Prop} {second : γ → δ → Prop}
    {x : Except Failure α} {y : Except Failure β} {f : α → Except Failure γ}
    {g : β → Except Failure δ} (start : Agree first x y)
    (leads : ∀ a b, first a b → Agree second (f a) (g b)) : Agree second (x.bind f) (y.bind g) := by
  cases x <;> cases y <;> simp only [Agree] at start
  · exact start
  · exact leads _ _ start

namespace Materializer

def draws (m : Materializer) (id : NodeId) (name : String) : Except Failure Bool :=
  match m.worlds.entries[name]? with
  | none => .error (.invalidConfig (.world (.unconfigured name)))
  | some probability => .ok (existsIn id name probability)

/-- What a world shows of a node: its decision, or the one it would make now. -/
def sees (m : Materializer) (n : Node) (world : World) : Except Failure Bool :=
  match n.decision? world, world with
  | some decided, _ => .ok decided
  | none, .primary => .ok true
  | none, .named name => m.draws n.id name

def promised (m : Materializer) (folder : Node) (name : String) : Except Failure (Option Node) :=
  match m.specs? folder with
  | none => .error (.unending folder.path)
  | some specs => .ok ((specs.find? (·.name = name)).map (m.generatedChild folder Moment.epoch))

/-- What lies in a folder under a name: its record once the folder's children are in the store,
before that what would be generated. -/
def lookup (m : Materializer) (s : Store) (folder : Node) (name : String) :
    Except Failure (Option Node) :=
  if folder.generated then .ok (s.record? (Path.join folder.path name)) else m.promised folder name

def view (m : Materializer) (s : Store) : List String → Node → Except Failure (Option Node)
  | [], here => .ok (some here)
  | name :: more, here =>
    if !here.isFolder then .ok none
    else (m.lookup s here name).bind fun
      | none => .ok none
      | some child => view m s more child

def walk (m : Materializer) (s : Store) (world : World) : List String → Node → Except Failure Node
  | [], here => .ok here
  | name :: more, here =>
    if !here.isFolder then .error (.notADirectory here.path)
    else (m.lookup s here name).bind fun
      | none => .error (.missing (Path.join here.path name))
      | some child => (m.sees child world).bind fun visible =>
        if visible then walk m s world more child
        else .error (.missing (Path.join here.path name))

end Materializer

/-- Equal but for what a node remembers of its reading: when it was written, its checksum, the
decisions it has put down and whether its children have been generated. -/
structure Node.Like (m : Materializer) (n k : Node) : Prop where
  place : n.SamePlace k
  depth : k.depth = n.depth
  kind : k.kind = n.kind
  size : k.size = n.size
  upload : k.upload = n.upload
  sees : ∀ world, m.sees k world = m.sees n world

def Materializer.Alike (m : Materializer) (s t : Store) (n k : Node) : Prop :=
  ∀ names, (∀ name ∈ names, Path.IsName name) →
    Agree (Option.Rel (Node.Like m)) (m.view s names n) (m.view t names k)

variable {m : Materializer} {scope : Scope} {s t u : Store} {n k : Node}

namespace Materializer

theorem sees_of_decision (m : Materializer) {world : World} {decided : Bool}
    (decision : n.decision? world = some decided) : m.sees n world = .ok decided := by
  simp only [sees, decision]

theorem sees_root (m : Materializer) (top : n.parent = none) (world : World) :
    m.sees n world = .ok true := by
  cases world with
  | primary => rfl
  | named name =>
    have isRoot : n.isRoot = true := by rw [Node.isRoot, top]; rfl
    simp only [sees, Node.decision?, isRoot, if_true]

theorem sees_decided (m : Materializer) (below : n.parent ≠ none) {name : String} {decided : Bool}
    (found : n.existence[name]? = some decided) : m.sees n (.named name) = .ok decided := by
  simp only [sees, Node.decision?, Node.isRoot_eq_false below, found, Bool.false_eq_true, if_false]

theorem sees_open (m : Materializer) (below : n.parent ≠ none) {name : String}
    (missing : n.existence[name]? = none) : m.sees n (.named name) = m.draws n.id name := by
  simp only [sees, Node.decision?, Node.isRoot_eq_false below, missing,
    Bool.false_eq_true, if_false]

theorem draws_unconfigured (m : Materializer) (id : NodeId) {name : String}
    (missing : m.worlds.entries[name]? = none) :
    m.draws id name = .error (.invalidConfig (.world (.unconfigured name))) := by
  rw [draws, missing]

theorem draws_configured (m : Materializer) (id : NodeId) {name : String} {probability : Binary64}
    (configured : m.worlds.entries[name]? = some probability) :
    m.draws id name = .ok (existsIn id name probability) := by
  rw [draws, configured]

end Materializer

namespace Node.Like

theorem refl (n : Node) : n.Like m n := ⟨⟨rfl, rfl, rfl, rfl⟩, rfl, rfl, rfl, rfl, fun _ => rfl⟩

theorem trans {l : Node} (left : n.Like m k) (right : k.Like m l) : n.Like m l where
  place := ⟨right.place.path.trans left.place.path, right.place.name.trans left.place.name,
    right.place.parent.trans left.place.parent, right.place.id.trans left.place.id⟩
  depth := right.depth.trans left.depth
  kind := right.kind.trans left.kind
  size := right.size.trans left.size
  upload := right.upload.trans left.upload
  sees := fun world => (right.sees world).trans (left.sees world)

theorem isFolder (like : n.Like m k) : k.isFolder = n.isFolder := by
  rw [Node.isFolder, Node.isFolder, like.kind]

end Node.Like

namespace Materializer

theorem Alike.refl (s : Store) (n : Node) : m.Alike s s n n :=
  fun _ _ => Agree.self fun child _ => .refl child

theorem Alike.trans {l : Node} (left : m.Alike s t n k) (right : m.Alike t u k l) :
    m.Alike s u n l := by
  intro names valid
  refine Agree.trans ?_ (left names valid) (right names valid)
  rintro a b c (here | _) (there | _)
  · exact .some (here.trans there)
  · exact .none

theorem Alike.like (alike : m.Alike s t n k) : n.Like m k := by
  cases alike [] (by simp) with
  | some like => exact like

theorem view_cons (m : Materializer) (s : Store) (isFolder : n.isFolder = true) (name : String)
    (more : List String) : m.view s (name :: more) n = (m.lookup s n name).bind fun
      | none => .ok none
      | some child => m.view s more child := by
  simp only [view, isFolder, Bool.not_true, Bool.false_eq_true, if_false]

theorem view_cons_file (m : Materializer) (s : Store) (file : n.isFolder = false) (name : String)
    (more : List String) : m.view s (name :: more) n = .ok none := by
  simp only [view, file, Bool.not_false, if_true]

theorem Alike.lookup (alike : m.Alike s t n k) (isFolder : n.isFolder = true) {name : String}
    (named : Path.IsName name) :
    Agree (Option.Rel (m.Alike s t)) (m.lookup s n name) (m.lookup t k name) := by
  have isFolder' : k.isFolder = true := by rw [alike.like.isFolder, isFolder]
  have below : ∀ more, (∀ other ∈ more, Path.IsName other) →
      Agree (Option.Rel (Node.Like m)) (m.view s (name :: more) n) (m.view t (name :: more) k) :=
    fun more valid => alike (name :: more) (List.forall_mem_cons.mpr ⟨named, valid⟩)
  simp only [view_cons m s isFolder, view_cons m t isFolder'] at below
  have first := below [] (by simp)
  cases left : m.lookup s n name <;> cases right : m.lookup t k name <;>
    rw [left, right] at first below
  · exact first
  · rename_i found
    cases found <;> cases first
  · rename_i found _
    cases found <;> cases first
  · rename_i found other
    cases found <;> cases other
    · exact .none
    · cases first
    · cases first
    · exact .some below

theorem Alike.walk (alike : m.Alike s t n k) (world : World) (names : List String)
    (valid : ∀ name ∈ names, Path.IsName name) :
    Agree (m.Alike s t) (m.walk s world names n) (m.walk t world names k) := by
  induction names generalizing n k with
  | nil => exact alike
  | cons name more ih =>
    obtain ⟨named, valid⟩ := List.forall_mem_cons.mp valid
    have same := alike.like.isFolder
    have path := alike.like.place.path
    cases isFolder : n.isFolder with
    | false =>
      simp only [Materializer.walk, same, isFolder, path, Bool.not_false, if_true]
      rfl
    | true =>
      simp only [Materializer.walk, same, isFolder, path, Bool.not_true, Bool.false_eq_true,
        if_false]
      refine Agree.bind (alike.lookup isFolder named) ?_
      rintro _ _ (below | _)
      · simp only [below.like.sees world]
        rename_i child child'
        refine (Agree.refl (m.sees child world)).bind ?_
        rintro visible _ rfl
        cases visible
        · rfl
        · exact ih below valid
      · rfl

end Materializer

end SeedTree
