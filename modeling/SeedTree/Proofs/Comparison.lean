import SeedTree.Proofs.Outline

/- What one world shows against what another shows, be it in the same tree or in two of one outline:
   the same, or no more. Where the decisions compare so node by node, lookups and listings do. -/
namespace SeedTree

inductive Comparison where
  /-- One and the other are the same, and fail alike. -/
  | same
  /-- What there is in the one is in the other. -/
  | noMore

namespace Comparison

def Holds (how : Comparison) {α β : Type} (related : α → β → Prop) (x : Except Failure α)
    (y : Except Failure β) : Prop :=
  match how with
  | same => Agree related x y
  | noMore => ∀ a, x = .ok a → ∃ b, y = .ok b ∧ related a b

def Orders : Comparison → Bool → Bool → Prop
  | same => fun a b => b = a
  | noMore => fun a b => a = true → b = true

def Lists : Comparison → List Node → List Node → Prop
  | same => fun nodes others => others.map Node.essence = nodes.map Node.essence
  | noMore => fun nodes others => (nodes.map Node.essence).Sublist (others.map Node.essence)

variable {how : Comparison} {α β γ δ : Type} {first : α → β → Prop} {second : γ → δ → Prop}
  {x : Except Failure α} {y : Except Failure β} {y' : Except Failure δ}
  {failure : Failure} {n k : Node}
  {nodes others : List Node} {visible visible' : Bool}

theorem holds_of_agree (agree : Agree first x y) : how.Holds first x y := by
  cases how with
  | same => exact agree
  | noMore =>
    rintro a rfl
    exact agree.of_eq_ok

theorem holds_ok {a : α} {b : β} (here : first a b) : how.Holds first (.ok a) (.ok b) :=
  holds_of_agree here

theorem holds_error (failure : Failure) : how.Holds first (.error failure) (.error failure) := by
  have agree : Agree first (.error failure) (.error failure) := rfl
  exact holds_of_agree agree

theorem Holds.bind {f : α → Except Failure γ} {g : β → Except Failure δ}
    (start : how.Holds first x y) (leads : ∀ a b, first a b → how.Holds second (f a) (g b)) :
    how.Holds second (x.bind f) (y.bind g) := by
  cases how with
  | same => exact Agree.bind start leads
  | noMore =>
    intro c done
    obtain ⟨a, rfl, done⟩ := of_bind_ok done
    obtain ⟨b, rfl, here⟩ := start a rfl
    exact leads a b here c done

theorem Holds.of_ok {a : α} (holds : how.Holds first (.ok a) y) : ∃ b, y = .ok b ∧ first a b := by
  cases how with
  | same => exact Agree.of_eq_ok holds
  | noMore => exact holds a rfl

theorem Holds.of_error (holds : how.Holds first (.error failure) y)
    (fails : y = .error failure → y' = .error failure) : how.Holds second (.error failure) y' := by
  cases how with
  | same =>
    rw [fails (Agree.of_eq_error holds)]
    exact holds_error failure
  | noMore => exact fun a impossible => by cases impossible

theorem Holds.transfer {α' β' : Type} {left : α → α' → Prop} {right : β → β' → Prop}
    {third : α' → β' → Prop} {x' : Except Failure α'} {y' : Except Failure β'}
    (holds : how.Holds first x y) (here : Agree left x x') (there : Agree right y y')
    (meet : ∀ a a' b b', first a b → left a a' → right b b' → third a' b') :
    how.Holds third x' y' := by
  cases how with
  | same =>
    have middle : Agree (fun a' b => ∃ a, first a b ∧ left a a') x' y :=
      Agree.both here holds fun a a' b l f => ⟨a, f, l⟩
    refine Agree.trans ?_ middle there
    rintro a' b b' ⟨a, f, l⟩ r
    exact meet a a' b b' f l r
  | noMore =>
    rintro a' rfl
    obtain ⟨a, rfl, l⟩ := here.of_ok
    obtain ⟨b, rfl, f⟩ := holds a rfl
    obtain ⟨b', rfl, r⟩ := there.of_eq_ok
    exact ⟨b', rfl, meet a a' b b' f l r⟩

theorem holds_guarded (orders : how.Orders visible visible')
    (both : visible = true → visible' = true → how.Holds first x y) :
    how.Holds first (if visible then x else .error failure)
      (if visible' then y else .error failure) := by
  cases how with
  | same =>
    cases orders
    cases visible with
    | true => exact both rfl rfl
    | false => exact holds_error failure
  | noMore =>
    cases visible with
    | true =>
      cases orders rfl
      exact both rfl rfl
    | false =>
      intro a impossible
      cases impossible

theorem lists_filtered (orders : how.Orders visible visible') (here : k.essence = n.essence)
    (rest : how.Lists nodes others) :
    how.Lists (if visible then n :: nodes else nodes)
      (if visible' then k :: others else others) := by
  cases how with
  | same =>
    cases orders
    cases visible with
    | true => exact congrArg₂ List.cons here rest
    | false => exact rest
  | noMore =>
    cases visible with
    | true =>
      cases orders rfl
      change ((n :: nodes).map Node.essence).Sublist ((k :: others).map Node.essence)
      rw [List.map_cons, List.map_cons, here]
      exact List.Sublist.cons_cons _ rest
    | false =>
      cases visible' with
      | true => exact List.Sublist.cons _ rest
      | false => exact rest

end Comparison

/-- Two pictures of one outline, each looked at in a world through an engine, where the decisions
compare. -/
structure Picture.Compares (how : Comparison) (v : Picture) (e : Engine)
    (world : World) (v' : Picture) (e' : Engine) (world' : World) : Prop where
  outlines : v.Outlines v'
  placed : ∀ path n, Path.IsNormal path → v path = .ok (some n) → n.path = path
  accepts : ∀ input, e'.accept input world' = e.accept input world
  decides : ∀ path n k, Path.IsNormal path → v path = .ok (some n) → v' path = .ok (some k) →
    how.Holds how.Orders (e.materializer.sees n world) (e'.materializer.sees k world')

namespace Picture.Compares

variable {how : Comparison} {v v' : Picture} {e e' : Engine} {world world' : World} {n k : Node}
  {path input : String} (compares : Compares how v e world v' e' world')

include compares

theorem node (normal : Path.IsNormal path) : Agree (Option.Rel fun n k => k.essence = n.essence ∧
    n.path = path ∧ how.Holds how.Orders (e.materializer.sees n world)
      (e'.materializer.sees k world'))
      (v path) (v' path) := by
  have outlined := compares.outlines path normal
  cases shown : v path with
  | error failure =>
    rw [shown] at outlined
    rw [outlined.of_eq_error]
    rfl
  | ok found =>
    rw [shown] at outlined
    obtain ⟨found', shown', rel⟩ := outlined.of_eq_ok
    rw [shown']
    cases rel with
    | none => exact .none
    | some same =>
      exact .some ⟨same, compares.placed path _ normal shown,
        compares.decides path _ _ normal shown shown'⟩

theorem walk {names : List String} (valid : ∀ name ∈ names, Path.IsName name)
    (normal : Path.IsNormal n.path) (same : k.essence = n.essence) :
    how.Holds (fun n k => k.essence = n.essence ∧ Path.IsNormal n.path)
      (v.walk e.materializer world names n) (v'.walk e'.materializer world' names k) := by
  induction names generalizing n k with
  | nil => exact Comparison.holds_ok ⟨same, normal⟩
  | cons name more ih =>
    obtain ⟨named, valid⟩ := List.forall_mem_cons.mp valid
    have place := Node.path_of_essence same
    unfold Picture.walk
    rw [Node.isFolder_of_essence same, place]
    cases isFolder : n.isFolder with
    | false => exact Comparison.holds_error _
    | true =>
      simp only [Bool.not_true, Bool.false_eq_true, if_false]
      have normal' := Path.isNormal_join normal named
      refine (Comparison.holds_of_agree (compares.node normal')).bind ?_
      rintro _ _ (@⟨child, child', same', here, decides⟩ | _)
      · refine decides.bind fun visible visible' orders => ?_
        refine Comparison.holds_guarded orders fun _ _ => ?_
        exact ih valid (by rw [here]; exact normal') same'
      · exact Comparison.holds_error _

theorem getNode (input : String) :
    how.Holds (fun n k => k.essence = n.essence ∧ Path.IsNormal n.path)
    (v.getNode e input world) (v'.getNode e' input world') := by
  unfold Picture.getNode
  rw [compares.accepts]
  cases accepted : e.accept input world with
  | error failure => exact Comparison.holds_error failure
  | ok path =>
    have normal := Path.normalize_isNormal (Engine.accept_ok_iff.mp accepted).2
    change how.Holds _ (v.resolve e.materializer world path)
      (v'.resolve e'.materializer world' path)
    unfold Picture.resolve
    refine (Comparison.holds_of_agree (compares.node Path.isNormal_root)).bind ?_
    rintro _ _ (⟨same, here, _⟩ | _)
    · exact compares.walk normal.components.1 (by rw [here]; exact Path.isNormal_root) same
    · exact Comparison.holds_error _

omit compares in
theorem visibles {m m' : Materializer} {nodes others : List Node}
    (alike : List.Forall₂ (fun n k => k.essence = n.essence ∧
      how.Holds how.Orders (m.sees n world) (m'.sees k world')) nodes others) :
    how.Holds how.Lists (m.visibles world nodes) (m'.visibles world' others) := by
  induction alike with
  | nil => cases how <;> exact Comparison.holds_ok (by simp [Comparison.Lists])
  | @cons n k nodes others here rest ih =>
    obtain ⟨same, decides⟩ := here
    rw [Materializer.visibles, Materializer.visibles]
    refine decides.bind fun visible visible' orders => ih.bind fun shown shown' lists => ?_
    exact Comparison.holds_ok (Comparison.lists_filtered orders same lists)

theorem children {folder folder' : Node} {x y : Except Failure (List Node)}
    (normal : Path.IsNormal folder.path) (same : folder'.essence = folder.essence)
    (first : v.Gathers e.materializer folder x) (second : v'.Gathers e'.materializer folder' y) :
    how.Holds how.Lists (x.bind (e.materializer.visibles world))
      (y.bind (e'.materializer.visibles world')) := by
  refine (Comparison.holds_of_agree (first.forall₂ second fun name named => ?_)).bind fun _ _ =>
    visibles
  rw [Node.path_of_essence same]
  refine Agree.trans ?_ (compares.node (Path.isNormal_join normal named)) (Agree.refl _)
  rintro _ _ _ (⟨alike, _, decides⟩ | _) rfl
  · refine .some fun n k left right => ⟨?_, ?_⟩
    · rw [right.like.essence, alike, left.like.essence]
    · rw [left.like.sees, right.like.sees]
      exact decides
  · exact .none

theorem lists {x y : Except Failure (List Node)} (first : v.Lists e input world x)
    (second : v'.Lists e' input world' y) : how.Holds how.Lists x y := by
  have found := compares.getNode input
  unfold Picture.Lists at first second
  cases left : v.getNode e input world with
  | error failure =>
    rw [left] at first found
    rw [first]
    refine found.of_error fun right => ?_
    rw [right] at second
    exact second
  | ok folder =>
    rw [left] at first found
    obtain ⟨folder', right, same, normal⟩ := found.of_ok
    rw [right] at second
    simp only at first second
    rw [Node.isFolder_of_essence same, Node.path_of_essence same] at second
    split at first
    · rename_i isFolder
      rw [if_pos isFolder] at second
      obtain ⟨listed, gathers, rfl⟩ := first
      obtain ⟨listed', gathers', rfl⟩ := second
      exact compares.children normal same gathers gathers'
    · rename_i isFile
      rw [if_neg isFile] at second
      rw [first, second]
      exact Comparison.holds_error _

end Picture.Compares

namespace Session

variable {scope : Scope} {how : Comparison} {a b : Session} {world world' : World}

/-- What a world of one session shows compares with what a world of another shows, in every lookup
and every listing. -/
structure Compares (how : Comparison) (a : Session) (world : World) (b : Session)
    (world' : World) : Prop where
  nodes : ∀ input site site', site.store = a.store → site'.store = b.store →
    site.Timely → site'.Timely →
    how.Holds (fun n k => k.essence = n.essence) ((a.engine.getNode input world).runOn site).1
      ((b.engine.getNode input world').runOn site').1
  listings : ∀ input site site', site.store = a.store → site'.store = b.store →
    site.Timely → site'.Timely →
    how.Holds how.Lists ((a.engine.listChildren input world).runOn site).1
      ((b.engine.listChildren input world').runOn site').1

theorem Valid.placed (valid : a.Valid scope) {path : String} {n : Node}
    (normal : Path.IsNormal path) (shown : a.picture path = .ok (some n)) : n.path = path :=
  (valid.wellFormed.shown_settled normal shown).1

theorem Valid.normal_of_found (valid : a.Valid scope) {input : String} {n : Node}
    (found : a.picture.getNode a.engine input world = .ok n) : Path.IsNormal n.path := by
  have agree :=
    Materializer.Depicts.getNode valid.wellFormed (.self _ _) input world (v := a.picture)
  rw [found] at agree
  obtain ⟨k, resolved, like⟩ := agree.of_eq_ok
  obtain ⟨path, accepted, resolved⟩ := of_bind_ok resolved
  have normal := Path.normalize_isNormal (Engine.accept_ok_iff.mp accepted).2
  rw [← like.place.path, valid.wellFormed.resolved_path normal resolved]
  exact normal

section Answering

variable {site : Site} (sound : a.Sound scope) (here : site.store = a.store) (timely : site.Timely)
  (input : String) (world : World)

include sound here timely

theorem Sound.answers_node : Agree (Node.StandsFor a.engine.materializer)
    (a.picture.getNode a.engine input world) ((a.engine.getNode input world).runOn site).1 := by
  obtain ⟨_, ⟨answer, _⟩, _⟩ :=
    sound.foretold (r := .getNode input world) (v := a.picture) (.self _ _)
      (fun _ makes => makes.elim) trivial here timely fun sums => sums.elim
  exact answer

theorem Sound.answers_listing :
    a.picture.Lists a.engine input world ((a.engine.listChildren input world).runOn site).1 := by
  obtain ⟨_, ⟨answer, _⟩, _⟩ :=
    sound.foretold (r := .listChildren input world) (v := a.picture) (.self _ _)
      (fun _ makes => makes.elim) trivial here timely fun sums => sums.elim
  exact answer

end Answering

theorem Sound.compares (sound : a.Sound scope) (sound' : b.Sound scope)
    (compares : Picture.Compares how a.picture a.engine world b.picture b.engine world') :
    a.Compares how world b world' where
  nodes := by
    intro input site site' here here' timely timely'
    refine (compares.getNode input).transfer (sound.answers_node here timely input world)
      (sound'.answers_node here' timely' input world') ?_
    intro n n' k k' same left right
    rw [right.like.essence, left.like.essence]
    exact same.1
  listings := by
    intro input site site' here here' timely timely'
    exact compares.lists (sound.answers_listing here timely input world)
      (sound'.answers_listing here' timely' input world')

end Session

end SeedTree
