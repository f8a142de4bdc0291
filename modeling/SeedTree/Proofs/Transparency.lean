import SeedTree.Proofs.Coherence
import SeedTree.Proofs.Engine.Foretold

/- Reads and failed operations go unnoticed: all that is answered later would have been answered
   without them. -/
namespace SeedTree

/-- What two nodes have on record about a world is the same, or one of them has nothing and the
other the decision that the world makes of itself. -/
inductive Materializer.Backfilled (m : Materializer) (id : NodeId) (world : String) :
    Option Bool → Option Bool → Prop where
  | same (decided : Option Bool) : Backfilled m id world decided decided
  | later {present : Bool} (drawn : m.draws id world = .ok present) :
      Backfilled m id world none (some present)
  | earlier {present : Bool} (drawn : m.draws id world = .ok present) :
      Backfilled m id world (some present) none

/-- Equal in every field but for the time of writing, the checksum, the mark of an expansion and
decisions that have been put down in the meantime. -/
structure Node.Resembles (m : Materializer) (n k : Node) : Prop where
  place : n.SamePlace k
  depth : k.depth = n.depth
  kind : k.kind = n.kind
  size : k.size = n.size
  upload : k.upload = n.upload
  existence : ∀ world, m.Backfilled n.id world n.existence[world]? k.existence[world]?

namespace Operation

def Resembles (m : Materializer) : (r : Operation) → r.Answer → r.Answer → Prop
  | .getNode .. | .createFolder .. | .createFolderAll .. | .uploadFile .. => Node.Resembles m
  | .listChildren .. => List.Forall₂ (Node.Resembles m)
  | .deleteNode .. | .readContent _ | .readRange .. | .checksum .. => Eq

/-- An operation that reads, or a single creation, upload or deletion that has failed. -/
inductive Quiet : (r : Operation) → Except Failure r.Answer → Prop where
  | reads {r : Operation} {result : Except Failure r.Answer} (reads : r.Reads) : Quiet r result
  | createFolder {parent name : String} {world : World} {failure : Failure} :
      Quiet (.createFolder parent world name) (.error failure)
  | uploadFile {parent name : String} {world : World} {data : Bytes} {failure : Failure} :
      Quiet (.uploadFile parent world name data) (.error failure)
  | deleteNode {path : String} {world : World} {failure : Failure} :
      Quiet (.deleteNode path world) (.error failure)

end Operation

namespace Blueprint

variable {related : Node → Node → Prop} {nodes others : List Node}

theorem Sorted.forall₂ (sorted : Sorted nodes) (sorted' : Sorted others)
    (same : ∀ n ∈ nodes ++ others,
      Option.Rel related (nodes.find? (·.name = n.name)) (others.find? (·.name = n.name))) :
    List.Forall₂ related nodes others := by
  induction nodes generalizing others with
  | nil =>
    cases others with
    | nil => exact .nil
    | cons b bs =>
      have first := same b (by simp)
      rw [List.find?_cons_of_pos (by simp)] at first
      cases first
  | cons a as ih =>
    have first := same a (by simp)
    rw [List.find?_cons_of_pos (by simp)] at first
    cases others with
    | nil => cases first
    | cons b bs =>
      have second := same b (by simp)
      obtain ⟨after, rest⟩ := List.pairwise_cons.mp sorted
      obtain ⟨after', rest'⟩ := List.pairwise_cons.mp sorted'
      rw [List.find?_cons_of_pos (p := (·.name = b.name)) (a := b) (by simp)] at second
      have equal : b.name = a.name := by
        by_contra apart
        rw [List.find?_cons_of_neg (by simpa using apart)] at first
        rw [List.find?_cons_of_neg (by simpa using Ne.symm apart)] at second
        cases found : bs.find? (·.name = a.name) with
        | none => rw [found] at first; cases first
        | some x =>
          cases found' : as.find? (·.name = b.name) with
          | none => rw [found'] at second; cases second
          | some y =>
            have before := after' x (List.mem_of_find?_eq_some found)
            have before' := after y (List.mem_of_find?_eq_some found')
            have named : x.name = a.name := by simpa using List.find?_some found
            have named' : y.name = b.name := by simpa using List.find?_some found'
            rw [named] at before
            rw [named'] at before'
            exact absurd before' (Std.OrientedCmp.not_lt_of_lt before)
      rw [List.find?_cons_of_pos (by simpa using equal)] at first
      cases first with
      | some here =>
        refine .cons here (ih rest rest' fun n member => ?_)
        have apart : n.name ≠ a.name := by
          rcases List.mem_append.mp member with left | right
          · exact fun clash => Sorted.distinct sorted |>
              List.pairwise_cons.mp |>.1 n left clash.symm
          · intro clash
            exact (List.pairwise_cons.mp (Sorted.distinct sorted')).1 n
              right (equal.trans clash.symm)
        have next := same n (by
          rcases List.mem_append.mp member with left | right
          · simp [left]
          · simp [right])
        rw [List.find?_cons_of_neg (by simpa using Ne.symm apart),
          List.find?_cons_of_neg (by rw [equal]; simpa using Ne.symm apart)] at next
        exact next

end Blueprint

variable {e : Engine} {m : Materializer} {scope : Scope} {s t : Store} {drawn n k : Node}
  {input : String} {world : World} {r : Operation} {v : Picture}

theorem Node.Like.backfilled (like : n.Like m k) (top : n.RootUndecided) (top' : k.RootUndecided)
    (world : String) : m.Backfilled n.id world n.existence[world]? k.existence[world]? := by
  by_cases below : n.parent = none
  · rw [top below, top' (like.place.parent.trans below)]
    exact .same _
  · have below' : k.parent ≠ none := by rw [like.place.parent]; exact below
    have seen := like.sees (.named world)
    cases left : n.existence[world]? with
    | none =>
      rw [m.sees_open below left] at seen
      cases right : k.existence[world]? with
      | none => exact .same _
      | some present =>
        rw [m.sees_decided below' right] at seen
        exact .later seen.symm
    | some present =>
      rw [m.sees_decided below left] at seen
      cases right : k.existence[world]? with
      | none =>
        rw [m.sees_open below' right, like.place.id] at seen
        exact .earlier seen
      | some other =>
        rw [m.sees_decided below' right] at seen
        cases seen
        exact .same _

theorem Node.StandsFor.resembles (here : drawn.StandsFor m n) (there : drawn.StandsFor m k) :
    n.Resembles m k := by
  have like := here.like.symm.trans there.like
  exact ⟨like.place, like.depth, like.kind, like.size, like.upload,
    like.backfilled here.undecided there.undecided⟩

theorem Agree.both {α β γ : Type} {first : α → β → Prop} {second : α → γ → Prop}
    {third : β → γ → Prop} {x : Except Failure α} {y : Except Failure β} {z : Except Failure γ}
    (left : Agree first x y) (right : Agree second x z)
    (both : ∀ a b c, first a b → second a c → third b c) : Agree third y z := by
  cases x <;> cases y <;> cases z <;> simp only [Agree] at left right ⊢
  · exact left.symm.trans right
  · exact both _ _ _ left right

def Node.Doubles (m : Materializer) (n k : Node) : Prop :=
  ∃ drawn : Node, drawn.StandsFor m n ∧ drawn.StandsFor m k

theorem Materializer.visibles_resemble {nodes others : List Node}
    (same : List.Forall₂ (Node.Doubles m) nodes others) (world : World) :
    Agree (List.Forall₂ (Node.Resembles m)) (m.visibles world nodes) (m.visibles world others) := by
  induction same with
  | nil => exact .nil
  | @cons n k more more' here rest ih =>
    obtain ⟨drawn, left, right⟩ := here
    have resembles := left.resembles right
    rw [visibles, visibles, left.like.sees, right.like.sees]
    refine Agree.bind (Agree.refl (m.sees drawn world)) ?_
    rintro visible _ rfl
    refine Agree.bind ih fun shown shown' known => ?_
    cases visible with
    | false => exact known
    | true => exact .cons resembles known

namespace Picture

theorem Gathers.forall₂ {m' : Materializer} {v' : Picture} {related : Node → Node → Prop}
    {x y : Except Failure (List Node)} {folder folder' : Node} (first : v.Gathers m folder x)
    (second : v'.Gathers m' folder' y)
    (same : ∀ name, Path.IsName name → Agree (Option.Rel fun drawn drawn' => ∀ n k,
      drawn.StandsFor m n → drawn'.StandsFor m' k → related n k)
        (v (Path.join folder.path name)) (v' (Path.join folder'.path name))) :
    Agree (List.Forall₂ related) x y := by
  have named : Path.IsName "a" := by decide +kernel
  have known := same "a" named
  cases first with
  | unending failed =>
    rw [failed "a" named] at known
    cases second with
    | unending fails =>
      rw [fails "a" named] at known
      exact known
    | children _ _ shown =>
      have clash := shown "a" named
      rw [known.of_eq_error] at clash
      exact clash.elim
  | @children children sorted valid shown =>
    cases second with
    | unending failed =>
      have clash := shown "a" named
      rw [failed "a" named] at known
      rw [known.eq_error] at clash
      exact clash.elim
    | @children others sorted' valid' shown' =>
      refine Blueprint.Sorted.forall₂ sorted sorted' fun n member => ?_
      have named : Path.IsName n.name := by
        rcases List.mem_append.mp member with left | right
        · exact valid n left
        · exact valid' n right
      have leading : Agree (fun drawn other => ∀ n, Option.Rel (Node.StandsFor m) drawn n →
          Option.Rel related n other) (v (Path.join folder.path n.name))
            (.ok (others.find? (·.name = n.name))) := by
        refine Agree.trans ?_ (same _ named) (shown' _ named)
        rintro _ _ _ (leads | _) (stands' | _) _ (stands | _)
        · exact .some (leads _ _ stands stands')
        · exact .none
      have both : Agree (Option.Rel related) (.ok (children.find? (·.name = n.name)))
          (.ok (others.find? (·.name = n.name))) :=
        Agree.both (shown _ named) leading fun drawn n other stands leads => leads n stands
      exact both

theorem Gathers.told {folder : Node} {children : List Node} {name : String}
    (gathers : v.Gathers m folder (.ok children)) (named : Path.IsName name) :
    ∃ child, v (Path.join folder.path name) = .ok child := by
  cases gathers with
  | children _ _ shown =>
    obtain ⟨child, found, _⟩ := (shown name named).of_ok
    exact ⟨child, found⟩

theorem Gathers.doubles {x y : Except Failure (List Node)} {folder : Node}
    (first : v.Gathers m folder x)
    (second : v.Gathers m folder y) : Agree (List.Forall₂ (Node.Doubles m)) x y :=
  first.forall₂ second fun _ _ => Agree.self fun drawn _ _ _ left right => ⟨drawn, left, right⟩

theorem Lists.of_ok {nodes : List Node} (lists : v.Lists e input world (.ok nodes)) :
    ∃ folder children, v.getNode e input world = .ok folder ∧ folder.isFolder = true ∧
      v.Gathers e.materializer folder (.ok children) ∧
      e.materializer.visibles world children = .ok nodes := by
  unfold Lists at lists
  split at lists
  · cases lists
  · rename_i folder found
    split at lists
    · rename_i isFolder
      obtain ⟨listed, gathers, same⟩ := lists
      obtain ⟨children, rfl, visible⟩ := of_bind_ok same.symm
      exact ⟨folder, children, found, isFolder, gathers, visible⟩
    · cases lists

/-- Two listings of one folder fail alike, or come from what lies under its names. -/
theorem Lists.both {v' : Picture} {x y : Except Failure (List Node)}
    (same : v'.getNode e input world = v.getNode e input world)
    (first : v.Lists e input world x) (second : v'.Lists e input world y) :
    (∃ failure, x = .error failure ∧ y = .error failure) ∨
      ∃ folder listed listed', v.getNode e input world = .ok folder ∧
        v.Gathers e.materializer folder listed ∧ v'.Gathers e.materializer folder listed' ∧
        x = listed.bind (e.materializer.visibles world) ∧
        y = listed'.bind (e.materializer.visibles world) := by
  unfold Lists at first second
  rw [same] at second
  split at first
  · rename_i found
    rw [found] at second
    exact Or.inl ⟨_, first, second⟩
  · rename_i folder found
    rw [found] at second
    simp only at second
    split at first
    · rename_i isFolder
      rw [if_pos isFolder] at second
      obtain ⟨listed, gathers, answer⟩ := first
      obtain ⟨listed', gathers', answer'⟩ := second
      exact Or.inr ⟨folder, listed, listed', found, gathers, gathers', answer, answer'⟩
    · rename_i isFile
      rw [if_neg isFile] at second
      exact Or.inl ⟨_, first, second⟩

theorem Lists.resemble {x y : Except Failure (List Node)} (first : v.Lists e input world x)
    (second : v.Lists e input world y) :
    Agree (List.Forall₂ (Node.Resembles e.materializer)) x y := by
  rcases first.both rfl second with
    ⟨failure, rfl, rfl⟩ | ⟨_, listed, listed', _, gathers, gathers', rfl, rfl⟩
  · rfl
  · exact Agree.bind (gathers.doubles gathers') fun _ _ same =>
      e.materializer.visibles_resemble same world

theorem Foretells.resemble {x y : Except Failure r.Answer} {next next' : Picture}
    (first : v.Foretells e r x next) (second : v.Foretells e r y next') :
    Agree (r.Resembles e.materializer) x y ∧ next' = next := by
  have nodes : ∀ {expected x y : Except Failure Node},
      Agree (Node.StandsFor e.materializer) expected x →
      Agree (Node.StandsFor e.materializer) expected y →
        Agree (Node.Resembles e.materializer) x y :=
    fun left right => left.both right fun _ _ _ => Node.StandsFor.resembles
  cases r with
  | getNode => exact ⟨nodes first.1 second.1, second.2.trans first.2.symm⟩
  | listChildren => exact ⟨Lists.resemble first.1 second.1, second.2.trans first.2.symm⟩
  | createFolder => exact ⟨nodes first.1 second.1, second.2.trans first.2.symm⟩
  | createFolderAll => exact ⟨nodes first.1 second.1, second.2.trans first.2.symm⟩
  | uploadFile => exact ⟨nodes first.1 second.1, second.2.trans first.2.symm⟩
  | deleteNode =>
    exact ⟨Agree.both first.1 second.1 fun _ _ _ _ _ => rfl, second.2.trans first.2.symm⟩
  | checksum =>
    refine ⟨?_, second.2.trans first.2.symm⟩
    rw [first.1, second.1]
    exact Agree.refl _
  | readContent => exact first.elim
  | readRange => exact first.elim

end Picture

namespace Session

structure Exchange where
  operation : Operation
  answer : Except Failure operation.Answer

inductive Exchange.Resembles (m : Materializer) : Exchange → Exchange → Prop where
  | resembles {r : Operation} {x y : Except Failure r.Answer}
    (answers : Agree (r.Resembles m) x y) :
      Resembles m ⟨r, x⟩ ⟨r, y⟩

inductive Answers (scope : Scope) : List Exchange → Session → Session → Prop where
  | none (a : Session) : Answers scope [] a a
  | more {a b : Session} {site : Site} {later : List Exchange} (r : Operation) (fits : r.Fits)
      (here : site.store = a.store) (timely : site.Timely)
      (rest : Answers scope later (a.after r site) b) :
      Answers scope (⟨r, ((r.run a.engine).runOn site).1⟩ :: later) a b

variable {a b c d : Session} {site : Site} {xs ys : List Exchange}

theorem Answers.paths (answers : Answers scope xs a b) : ∃ more, b.paths = a.paths ++ more := by
  induction answers with
  | none a => exact ⟨[], (List.append_nil _).symm⟩
  | more r fits here timely rest ih =>
    obtain ⟨more, paths⟩ := ih
    exact ⟨_, by rw [paths, after, List.append_assoc]⟩

theorem Answers.distinct {seed : UInt64} (answers : Answers scope xs a b)
    (distinct : Store.Distinct seed b.paths) : Store.Distinct seed a.paths := by
  obtain ⟨more, paths⟩ := answers.paths
  rw [paths] at distinct
  exact distinct.left

structure Sound (scope : Scope) (a : Session) : Prop where
  valid : a.Valid scope
  clear : a.store.Obeys Node.RootUndecided
  honest : a.store.Obeys (Node.Honest a.engine.materializer.parameters)

theorem Reached.sound (reached : a.Reached scope) : a.Sound scope where
  valid := reached.valid
  clear := reached.obeys fun p => undecided_rule scope p
  honest := reached.obeys fun p => honest_rule scope p

theorem Sound.turn {kind : Option Operation} (sound : a.Sound scope) (turn : Turn scope kind a b) :
    b.Sound scope where
  valid := turn.valid sound.valid
  clear := turn.obeys (fun p => undecided_rule scope p) sound.valid sound.clear
  honest := turn.obeys (fun p => honest_rule scope p) sound.valid sound.honest

theorem Sound.turns {may : Option Operation → Prop} (sound : a.Sound scope)
    (turns : Turns scope may a b) : b.Sound scope := by
  induction turns with
  | none a => exact sound
  | more rest permitted turn ih => exact (ih sound).turn turn

theorem Sound.foretold (sound : a.Sound scope) (depicts : a.engine.materializer.Depicts v a.store)
    (fits : r.Fits) (byPath : r.ByPath) (here : site.store = a.store) (timely : site.Timely)
    (distinct : r.Sums →
      Store.Distinct a.engine.materializer.parameters.seed (a.after r site).paths) :
    ∃ next, v.Foretells a.engine r ((r.run a.engine).runOn site).1 next ∧
      a.engine.materializer.Depicts next (a.after r site).store := by
  have valid := sound.valid
  have wf := valid.wellFormed
  have clear := sound.clear
  have honest := sound.honest
  have later := (sound.turn (.operates r fits here timely)).valid
  rw [← here] at wf depicts clear honest
  have ends : (r.run a.engine).Ends (Setting.alone scope a.engine.materializer.parameters) []
    site.store _ := ends_foretold wf valid.ready depicts clear honest r fits byPath
  exact ends.runOn timely fun sums => (later.tracked (distinct sums)).entered

theorem Sound.quiet (sound : a.Sound scope) (depicts : a.engine.materializer.Depicts v a.store)
    (fits : r.Fits) (here : site.store = a.store) (timely : site.Timely)
    (quiet : r.Quiet ((r.run a.engine).runOn site).1) :
    a.engine.materializer.Depicts v (a.after r site).store := by
  have failed : ∀ {expected : Except Failure Node} {x failure},
      Agree (Node.StandsFor a.engine.materializer) expected x → x = .error failure →
        v.after expected = v := by
    intro expected x failure agree same
    rw [same] at agree
    rw [agree.eq_error]
    rfl
  generalize answer : ((r.run a.engine).runOn site).1 = result at quiet
  cases quiet with
  | reads reads =>
    have wf := sound.valid.wellFormed
    exact depicts.reads sound.valid.ready.within wf
      (sound.valid.moves fits here timely) fun _ may =>
      Operation.reads_of_may reads may
  | createFolder =>
    obtain ⟨next, ⟨agree, rfl⟩, shown⟩ :=
      sound.foretold depicts fits trivial here timely fun sums =>
        sums.elim
    rw [failed agree answer] at shown
    exact shown
  | uploadFile =>
    obtain ⟨next, ⟨agree, rfl⟩, shown⟩ :=
      sound.foretold depicts fits trivial here timely fun sums =>
        sums.elim
    rw [failed agree answer] at shown
    exact shown
  | deleteNode =>
    obtain ⟨next, ⟨agree, rfl⟩, shown⟩ :=
      sound.foretold depicts fits trivial here timely fun sums =>
        sums.elim
    rw [answer] at agree
    rw [agree.eq_error] at shown
    exact shown

theorem Answers.resemble (plain : Answers scope xs a c) (later : Answers scope ys b d)
    (sound : a.Sound scope) (sound' : b.Sound scope) (engine : b.engine = a.engine)
    (depicts : a.engine.materializer.Depicts v a.store)
    (depicts' : a.engine.materializer.Depicts v b.store)
    (same : xs.map Exchange.operation = ys.map Exchange.operation)
    (byPath : ∀ x ∈ xs, x.operation.ByPath)
    (distinct : (∃ x ∈ xs, x.operation.Sums) →
      Store.Distinct a.engine.materializer.parameters.seed c.paths ∧
        Store.Distinct a.engine.materializer.parameters.seed d.paths) :
    List.Forall₂ (Exchange.Resembles a.engine.materializer) xs ys := by
  induction plain generalizing b ys v with
  | none a =>
    cases later with
    | none b => exact .nil
    | more => cases same
  | @more a c site rest r fits here timely plain ih =>
    cases later with
    | none b => cases same
    | @more _ d site' rest' r' fits' here' timely' later =>
      obtain ⟨equal, tail⟩ := List.cons.inj same
      change r = r' at equal
      subst equal
      obtain ⟨first, byPath⟩ := List.forall_mem_cons.mp byPath
      have depicts' : b.engine.materializer.Depicts v b.store := by rw [engine]; exact depicts'
      obtain ⟨next, foretells, shown⟩ := sound.foretold depicts fits first here timely fun sums =>
        plain.distinct (distinct ⟨_, List.mem_cons_self, sums⟩).1
      obtain ⟨next', foretells', shown'⟩ :=
        sound'.foretold depicts' fits' first here' timely' fun sums => by
          rw [engine]
          exact later.distinct (distinct ⟨_, List.mem_cons_self, sums⟩).2
      rw [engine] at foretells' shown'
      obtain ⟨alike, rfl⟩ := foretells.resemble foretells'
      refine .cons ?_ (ih later (sound.turn (.operates r fits here timely))
        (sound'.turn (.operates r fits' here' timely')) engine shown shown' tail byPath fun sums =>
          ?_)
      · rw [engine]
        exact .resembles alike
      · obtain ⟨x, member, sums⟩ := sums
        exact distinct ⟨x, List.mem_cons_of_mem _ member, sums⟩

/-- Whether or not a quiet operation is run first, the same operations on paths answer alike. If
there is a checksum among them, no two paths of either session may share an identity. -/
theorem quiet_unnoticed {quiet : Operation} (reached : a.Reached scope) (fits : quiet.Fits)
    (here : site.store = a.store) (timely : site.Timely)
    (isQuiet : quiet.Quiet ((quiet.run a.engine).runOn site).1) (plain : Answers scope xs a c)
    (later : Answers scope ys (a.after quiet site) d)
    (same : xs.map Exchange.operation = ys.map Exchange.operation)
    (byPath : ∀ x ∈ xs, x.operation.ByPath)
    (distinct : (∃ x ∈ xs, x.operation.Sums) →
      Store.Distinct a.engine.config.parameters.seed c.paths ∧
        Store.Distinct a.engine.config.parameters.seed d.paths) :
    List.Forall₂ (Exchange.Resembles a.engine.materializer) xs ys := by
  have sound := reached.sound
  rw [sound.valid.ready.config] at distinct
  have depicts : a.engine.materializer.Depicts (a.engine.materializer.shows a.store) a.store :=
    .self _ _
  exact plain.resemble later sound (sound.turn (.operates quiet fits here timely)) rfl depicts
    (sound.quiet depicts fits here timely isQuiet) same byPath distinct

def deletes (a : Session) : List Exchange :=
  let b := a.after (.deleteNode "/kelp_nectar" .primary) (.still a.store)
  [⟨.deleteNode "/kelp_nectar" .primary,
      ((a.engine.deleteNode "/kelp_nectar" .primary).runOn (.still a.store)).1⟩,
    ⟨.getNode "/kelp_nectar" .primary,
      ((b.engine.getNode "/kelp_nectar" .primary).runOn (.still b.store)).1⟩]

theorem deletes_answers (a : Session) : ∃ b, Answers .bare a.deletes a b :=
  ⟨_, .more (.deleteNode ..) (fun _ makes => makes.elim) (Site.still_store _) (Site.still_timely _)
    (.more (.getNode ..) (fun _ makes => makes.elim) (Site.still_store _) (Site.still_timely _)
      (.none _))⟩

theorem deletes_operations (a : Session) : a.deletes.map Exchange.operation =
    [.deleteNode "/kelp_nectar" .primary, .getNode "/kelp_nectar" .primary] := rfl

theorem deletes_unnoticed : newTree.Reached .bare ∧
    List.Forall₂ (Exchange.Resembles newTree.engine.materializer) newTree.deletes
      (newTree.after (.listChildren "/" .primary) (.still newTree.store)).deletes := by
  have reached : newTree.Reached .bare := ⟨_, newTree_begins, .none _⟩
  have quiet : Operation.Quiet (.listChildren "/" .primary)
      (((Operation.listChildren "/" .primary).run newTree.engine).runOn (.still newTree.store)).1 :=
    .reads trivial
  have fits : (Operation.listChildren "/" .primary).Fits := fun _ makes => makes.elim
  obtain ⟨_, plain⟩ := newTree.deletes_answers
  obtain ⟨_, later⟩ :=
    (newTree.after (.listChildren "/" .primary) (.still newTree.store)).deletes_answers
  have operations : ∀ x ∈ newTree.deletes, x.operation.ByPath ∧ ¬ x.operation.Sums := by
    intro x member
    have among := List.mem_map_of_mem (f := Exchange.operation) member
    rw [deletes_operations] at among
    simp only [List.mem_cons, List.not_mem_nil, or_false] at among
    rcases among with same | same <;> rw [same] <;> exact ⟨trivial, id⟩
  refine ⟨reached, quiet_unnoticed reached fits (Site.still_store _)
    (Site.still_timely _) quiet plain later ?_ (fun x member => (operations x member).1) ?_⟩
  · rw [deletes_operations, deletes_operations]
  · rintro ⟨x, member, sums⟩
    exact absurd sums (operations x member).2

end Session

end SeedTree
