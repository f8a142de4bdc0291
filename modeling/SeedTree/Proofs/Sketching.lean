import SeedTree.Command.Running
import SeedTree.Proofs.Browsing
import SeedTree.Proofs.Engine.Entering
import SeedTree.Proofs.Engine.Pairs

/- Drawing what a world shows below a folder. An attempt sketches a region if it lists some folders
   and ends with a line for everything in the region that the picture shows. Sketches are put
   together as the lines are, and the lines below a folder sketch what lies below it to some
   depth. -/
namespace SeedTree

open Attempt
open SeedTree.Path (IsNormal Within Beneath Precedes levels)

variable {e : Engine} {m : Materializer} {scope : Scope} {v : Picture} {n : Node}
  {nodes : List Node} {t : Store} {path folder top input : String} {depth : Nat} {world : World}

namespace Picture

/-- The line of a path in a drawing that starts at another one. -/
def line (v : Picture) (m : Materializer) (world : World) (top path : String) : String :=
  match v.resolve m world path with
  | .ok n => n.treeLine (levels top path)
  | .error _ => ""

theorem line_of_kid {drawn : Node} (resolves : v.resolve m world path = .ok drawn)
    (name : drawn.name = n.name)
    (kind : drawn.isFolder = n.isFolder) :
    n.treeLine (levels top path) = v.line m world top path := by
  rw [line, resolves]
  simp only [Node.treeLine, name, kind]

/-- How the drawing of a region ends: with the lines of all that is shown in it, after all folders
that had to be listed have been, or with the failure of one of the listings. -/
inductive Drawn (v : Picture) (e : Engine) (world : World) (top : String)
    (opened region : String → Prop) (t : Store) : Except Failure (List String) → Prop where
  | unending {folder : String} {failure : Failure} (member : opened folder)
      (fails : v.Lists e folder world (.error failure)) :
        Drawn v e world top opened region t (.error failure)
  | whole {paths : List String} (lists : v.Enumerates e.materializer world region paths)
      (told : ∀ folder, opened folder → t.Told world folder) :
      Drawn v e world top opened region t (.ok (paths.map (v.line e.materializer world top)))

theorem Drawn.congr {opened opened' region region' : String → Prop}
    {result : Except Failure (List String)}
    (drawn : v.Drawn e world top opened region t result)
    (wider : ∀ folder, opened folder → opened' folder)
    (told : ∀ folder, opened' folder → opened folder ∨ t.Told world folder)
    (alike : ∀ path, IsNormal path → v.Shows e.materializer world path →
      (region path ↔ region' path)) :
    v.Drawn e world top opened' region' t result := by
  cases drawn with
  | unending member fails => exact .unending (wider _ member) fails
  | whole lists known =>
    exact .whole (lists.congr alike) fun folder member =>
      (told folder member).elim (known folder) id

end Picture

namespace Session

variable {a b : Session} {site : Site} {opened opened' region region' : String → Prop}
  {attempt attempt' : Attempt (List String)}

/-- An attempt that lists some folders, one after another, and draws a region. -/
def Sketches (scope : Scope) (v : Picture) (e : Engine) (world : World) (top : String)
    (opened region : String → Prop) (attempt : Attempt (List String)) : Prop :=
  ∀ (a : Session) (site : Site), a.Viewed scope e v → site.store = a.store → site.Timely →
    ∃ b, Turns scope (Browses world opened) a b ∧ (attempt.runOn site).2.store = b.store ∧
      v.Drawn e world top opened region b.store (attempt.runOn site).1

namespace Sketches

theorem congr (sketches : Sketches scope v e world top opened region attempt)
    (same : ∀ folder, opened folder ↔ opened' folder)
    (alike : ∀ path, IsNormal path → v.Shows e.materializer world path →
      (region path ↔ region' path)) :
    Sketches scope v e world top opened' region' attempt := by
  intro a site viewed here timely
  obtain ⟨b, turns, there, drawn⟩ := sketches a site viewed here timely
  refine ⟨b, turns.browses_mono fun folder => (same folder).mp, there, ?_⟩
  exact drawn.congr (fun folder => (same folder).mp)
    (fun folder member => Or.inl ((same folder).mpr member)) alike

theorem none (hidden : ∀ path, IsNormal path → region path → ¬ v.Shows e.materializer world path) :
    Sketches scope v e world top (fun _ => False) region (pure []) :=
  fun a _ _ here _ => ⟨a, .none a, here, .whole (.none hidden) fun _ => False.elim⟩

theorem one (normal : IsNormal path) (shows : v.Shows e.materializer world path) :
    Sketches scope v e world top (fun _ => False) (· = path)
      (pure [v.line e.materializer world top path]) :=
  fun a _ _ here _ => ⟨a, .none a, here, .whole (.one normal shows) fun _ => False.elim⟩

theorem append (first : Sketches scope v e world top opened region attempt)
    (second : Sketches scope v e world top opened' region' attempt')
    (before : ∀ path next, IsNormal path → IsNormal next → region path →
      region' next → Precedes path next) :
    Sketches scope v e world top (fun folder => opened folder ∨ opened' folder)
      (fun path => region path ∨ region' path)
      (attempt >>= fun lines => attempt' >>= fun more => pure (lines ++ more)) := by
  intro a site viewed here timely
  obtain ⟨b, turns, there, drawn⟩ := first a site viewed here timely
  have timely' : (attempt.runOn site).2.Timely := timely.run _
  have turns' := turns.browses_mono fun folder member =>
    (Or.inl member : opened folder ∨ opened' folder)
  rw [runOn_bind]
  generalize attempt.runOn site = ended at there timely' drawn ⊢
  obtain ⟨result, between⟩ := ended
  cases drawn with
  | unending member fails => exact ⟨b, turns', there, .unending (Or.inl member) fails⟩
  | whole lists told =>
    have viewed' := (viewed.turns turns).1
    obtain ⟨c, later, there', drawn'⟩ := second b between viewed' there timely'
    have later' := later.browses_mono fun folder member =>
      (Or.inr member : opened folder ∨ opened' folder)
    refine ⟨c, turns'.trans later', ?_⟩
    simp only [follow]
    rw [runOn_bind]
    generalize attempt'.runOn between = ended at there' drawn' ⊢
    obtain ⟨result', last⟩ := ended
    cases drawn' with
    | unending member fails => exact ⟨there', .unending (Or.inr member) fails⟩
    | whole lists' told' =>
      refine ⟨there', ?_⟩
      simp only [follow]
      change v.Drawn e world top _ _ _ (.ok (_ ++ _))
      rw [← List.map_append]
      refine .whole (lists.append lists' before) fun folder member => ?_
      exact member.elim (fun early => viewed'.told_after later (told folder early)) (told' folder)

theorem listing (offers : e.worlds.Offers world) (normal : IsNormal folder)
    {leads : List Node → Attempt (List String)}
    (onward : ∀ nodes, v.Kids e.materializer world folder nodes →
      Sketches scope v e world top opened region (leads nodes)) :
    Sketches scope v e world top (fun other => other = folder ∨ opened other) region
      (e.listChildren folder world >>= leads) := by
  intro a site viewed here timely
  have fits : (Operation.listChildren folder world).Fits := Operation.fits_of_reads trivial
  have turn : Turns scope (Browses world fun other => other = folder ∨ opened other) a
      (a.after (.listChildren folder world) site) :=
    .more (.none a) (browses_listing (Or.inl rfl)) (.operates _ fits here timely)
  have timely' : ((e.listChildren folder world).runOn site).2.Timely := timely.run _
  rw [runOn_bind]
  cases answered : ((e.listChildren folder world).runOn site).1 with
  | error failure =>
    obtain ⟨sound, rfl, depicts⟩ := viewed
    have lists := (sound.lists depicts here timely folder world).1
    rw [answered] at lists
    exact ⟨_, turn, rfl, .unending (Or.inl rfl) lists⟩
  | ok nodes =>
    have viewed' := (viewed.turns turn).1
    obtain ⟨kids, told⟩ := viewed.listed offers normal here timely answered
    have engine := viewed.engine
    have same : (a.after (.listChildren folder world) site).store
        = ((e.listChildren folder world).runOn site).2.store := by rw [← engine]; rfl
    obtain ⟨b, turns, there, drawn⟩ := onward nodes kids _ _ viewed' same.symm timely'
    have turns' := turns.browses_mono fun other member =>
      (Or.inr member : other = folder ∨ opened other)
    refine ⟨b, turn.trans turns', there, ?_⟩
    refine drawn.congr (fun _ => Or.inr) (fun other member => ?_) fun _ _ _ => Iff.rfl
    rcases member with rfl | member
    · exact Or.inr (viewed'.told_after turns told)
    · exact Or.inl member

end Sketches

theorem alone_of_file (normal : IsNormal path) {drawn : Node}
    (resolves : v.resolve m world path = .ok drawn)
    (isFile : drawn.isFolder = false) {other : String} (normal' : IsNormal other)
    (shows : v.Shows m world other) (inside : Within path other) : other = path := by
  by_contra apart
  obtain ⟨shown, resolves', isFolder⟩ := shows.above normal normal' inside
  cases resolves.symm.trans resolves'
  rw [isFolder apart] at isFile
  cases isFile

theorem not_opens_file (normal : IsNormal path) {drawn : Node}
    (resolves : v.resolve m world path = .ok drawn)
    (isFile : drawn.isFolder = false) : ¬ v.Opens m world path depth folder := by
  rintro ⟨normal', inside, _, shown, found, isFolder⟩
  cases alone_of_file normal resolves isFile normal' ⟨shown, found⟩ inside
  cases resolves.symm.trans found
  rw [isFolder] at isFile
  cases isFile

theorem sketches_kid (normal : IsNormal path) {drawn : Node}
    (resolves : v.resolve e.materializer world path = .ok drawn)
    (name : drawn.name = n.name) (kind : drawn.isFolder = n.isFolder)
    {below : Attempt (List String)} (deeper : n.isFolder = true →
      Sketches scope v e world top (v.Opens e.materializer world path depth)
        (Beneath path depth) below) :
    Sketches scope v e world top (v.Opens e.materializer world path depth)
      (fun other => Within path other ∧ levels path other ≤ depth)
      (if n.isFolder then below >>= fun lines => pure (n.treeLine (levels top path) :: lines)
        else pure [n.treeLine (levels top path)]) := by
  have own : Sketches scope v e world top (fun _ => False) (· = path)
      (pure [n.treeLine (levels top path)]) := by
    rw [Picture.line_of_kid resolves name kind]
    exact .one normal ⟨drawn, resolves⟩
  have here : Within path path ∧ levels path path ≤ depth :=
    ⟨Path.within_refl path, by rw [Path.levels_self]; exact Nat.zero_le _⟩
  cases isFolder : n.isFolder with
  | false =>
    have isFile := kind.trans isFolder
    refine own.congr (fun folder => ⟨False.elim, not_opens_file normal resolves isFile⟩)
      fun other normal' shows =>
      ⟨?_, fun inside => alone_of_file normal resolves isFile normal' shows inside.1⟩
    rintro rfl
    exact here
  | true =>
    have both := own.append (deeper isFolder) fun other next normal' normal'' same inside => by
      subst same
      exact Path.precedes_below normal' normal'' inside.within inside.apart
    refine Sketches.congr both (fun folder => or_iff_right id) fun other normal' shows =>
      ⟨?_, fun inside => ?_⟩
    · rintro (rfl | inside)
      · exact here
      · exact ⟨inside.within, inside.near⟩
    · by_cases same : other = path
      · exact Or.inl same
      · exact Or.inr ⟨inside.1, same, inside.2⟩

theorem sketches_kids (depth : Nat) (normal : IsNormal folder) (sorted : Blueprint.Sorted nodes)
    {draw : Node → Attempt (List String)}
    (each : ∀ n ∈ nodes, Path.IsName n.name ∧ n.path = Path.join folder n.name ∧
      Sketches scope v e world top (v.Opens e.materializer world n.path depth)
        (fun path => Within n.path path ∧ levels n.path path ≤ depth) (draw n)) :
    Sketches scope v e world top
      (fun other => ∃ n ∈ nodes, v.Opens e.materializer world n.path depth other)
      (fun path => ∃ n ∈ nodes, Within n.path path ∧ levels n.path path ≤ depth)
      (nodes.mapM draw >>= fun lines => pure lines.flatten) := by
  induction nodes with
  | nil =>
    refine Sketches.congr (.none fun path _ among _ => ?_)
      (fun other => ⟨False.elim, ?_⟩) fun path _ _ => Iff.rfl
    · obtain ⟨n, member, _⟩ := among
      exact absurd member List.not_mem_nil
    · rintro ⟨n, member, _⟩
      exact absurd member List.not_mem_nil
  | cons n more ih =>
    obtain ⟨after, sorted⟩ := List.pairwise_cons.mp sorted
    obtain ⟨⟨named, place, own⟩, each⟩ := List.forall_mem_cons.mp each
    have apart : (n :: more).mapM draw >>= (fun lines => pure lines.flatten)
        = draw n >>= fun lines => (more.mapM draw >>= fun rest => pure rest.flatten) >>= fun rest =>
          pure (lines ++ rest) := by
      simp only [List.mapM_cons, bind_assoc, pure_bind, List.flatten_cons]
    rw [apart]
    refine (own.append (ih sorted each) ?_).congr (fun other => ?_) fun path _ _ => ?_
    · rintro path next _ _ ⟨inside, _⟩ ⟨k, member, inside', _⟩
      obtain ⟨named', place', _⟩ := each k member
      rw [place] at inside
      rw [place'] at inside'
      exact Path.precedes_beside normal named named' (after k member) inside inside'
    · simp only [List.mem_cons, exists_eq_or_imp]
    · simp only [List.mem_cons, exists_eq_or_imp]

/-- By recursion on the depth, the folders in sight are listed and all that is shown below is
drawn. -/
theorem sketches_linesBelow (offers : e.worlds.Offers world) (depth : Nat)
    (normal : IsNormal folder)
    (inside : Within top folder) (resolves : v.resolve e.materializer world folder = .ok n)
    (isFolder : n.isFolder = true) :
    Sketches scope v e world top (v.Opens e.materializer world folder depth) (Beneath folder depth)
      (e.linesBelow world (levels top folder + 1) depth folder) := by
  induction depth generalizing folder n with
  | zero =>
    refine Sketches.congr
      (.none fun path normal' beneath _ => Path.not_beneath_zero normal normal' beneath)
      (fun other => ⟨False.elim, fun opens => absurd opens.near (Nat.not_lt_zero _)⟩)
        fun path _ _ => Iff.rfl
  | succ depth ih =>
    unfold Engine.linesBelow
    have listed := Picture.opens_succ_iff normal resolves isFolder depth
    refine (Sketches.listing offers normal fun nodes kids => ?_).congr listed fun path _ _ =>
      Iff.rfl
    refine (sketches_kids depth normal kids.sorted fun n member => ?_).congr
      (fun other => kids.opens_iff normal)
      fun path normal' shows => kids.beneath_iff normal normal' shows
    obtain ⟨named, place, drawn, resolves', name, kind⟩ := kids.each n member
    have normal' := Path.isNormal_join normal named
    have level := Path.levels_join normal named inside
    rw [← place] at normal' level
    refine ⟨named, place, ?_⟩
    rw [← level]
    refine sketches_kid normal' resolves' name kind fun isFolder' => ?_
    exact ih normal' (inside.trans (kids.below normal member (Path.within_refl _)).1) resolves'
      (kind.trans isFolder')

def below (e : Engine) (world : World) (depth : Nat) (n : Node) : Attempt (List String) :=
  if n.isFolder then e.linesBelow world 1 depth n.path else pure []

theorem sketches_below (offers : e.worlds.Offers world) (depth : Nat)
    (normal : IsNormal n.path) {drawn : Node}
    (resolves : v.resolve e.materializer world n.path = .ok drawn)
    (kind : n.isFolder = drawn.isFolder) :
    Sketches scope v e world n.path
      (v.Opens e.materializer world n.path depth) (Beneath n.path depth)
      (below e world depth n) := by
  unfold below
  cases isFolder : n.isFolder with
  | true =>
    rw [isFolder] at kind
    have lines : Sketches scope v e world n.path _ _ _ :=
      sketches_linesBelow offers depth normal (Path.within_refl _) resolves kind.symm
    rw [Path.levels_self] at lines
    exact lines
  | false =>
    rw [isFolder] at kind
    refine Sketches.congr (.none fun path normal' beneath shows => ?_)
      (fun other => ⟨False.elim, not_opens_file normal resolves kind.symm⟩) fun path _ _ => Iff.rfl
    exact beneath.apart (alone_of_file normal resolves kind.symm normal' shows beneath.within)

theorem treeLines_eq (e : Engine) (world : World) (input : String) (depth : Nat) :
    e.treeLines world input depth
    = e.getNode input world >>= fun n => below e world depth n >>= fun lines =>
      pure (n.path :: lines) := by
  unfold Engine.treeLines below
  congr 1
  funext n
  split <;> rfl

theorem runOn_tree (answered : ((e.getNode input world).runOn site).1 = .ok n)
    (depth : UInt32) (disk : Disk) : (Command.run e world disk (.tree input depth)).runOn site =
      let drawn := (below e world depth.toNat n).runOn ((e.getNode input world).runOn site).2
      (drawn.1.map fun lines => (String.intercalate "\n" (n.path :: lines), disk), drawn.2) := by
  change (e.treeLines world input depth.toNat >>=
    fun lines => pure (String.intercalate "\n" lines, disk)).runOn site = _
  rw [treeLines_eq, runOn_bind, runOn_bind, answered]
  simp only [follow]
  rw [runOn_bind]
  cases ((below e world depth.toNat n).runOn ((e.getNode input world).runOn site).2).1 <;> rfl

end Session

end SeedTree
