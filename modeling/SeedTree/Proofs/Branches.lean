import SeedTree.Proofs.Emptiness
import SeedTree.Proofs.Roster
import SeedTree.Proofs.Sketching

/- The tree that is printed of what a world shows. Its folders are listed one after another, and
   each listing may change the store; what is printed is all the same what lookups find at the
   beginning, no record is added deeper than was asked for, and printing it again finds the store as
   it leaves it. -/
namespace SeedTree

open Attempt
open SeedTree.Path (IsNormal Within Beneath Precedes levels)

variable {e : Engine} {m : Materializer} {scope : Scope} {v : Picture}
  {n : Node} {input folder : String} {world : World}

theorem Materializer.visibles_told
    (told : ∀ n, ∃ visible, m.sees n world = .ok visible) (nodes : List Node) :
    ∃ shown, m.visibles world nodes = .ok shown := by
  induction nodes with
  | nil => exact ⟨[], rfl⟩
  | cons n more ih =>
    obtain ⟨visible, seen⟩ := told n
    obtain ⟨shown, rest⟩ := ih
    rw [visibles, seen, rest]
    cases visible <;> exact ⟨_, rfl⟩

theorem Engine.getNode_normalized {path : String} (normalized : Path.normalize input = .ok path) :
    e.getNode input world = e.getNode path world := by
  unfold Engine.getNode
  rw [normalized, show Path.normalize path = .ok path from Path.normalize_isNormal normalized]

namespace Session

variable {a b : Session} {site : Site} {top : Node} {nodes : List Node} {text : String}

/-- What a text shows below a path, to some depth: one line for each node that a lookup finds there,
in depth-first order. The lines are indented by two blanks for each level, and those of folders end
in a slash. -/
structure Drawing (e : Engine) (world : World) (site : Site) (top : String)
    (depth : Nat) (nodes : List Node) (text : String) : Prop where
  lines : text = String.intercalate "\n" (top :: nodes.map fun n =>
    String.ofList (List.replicate (2 * levels top n.path) ' ') ++
      (n.name ++ if n.isFolder then "/" else ""))
  ordered : nodes.Pairwise fun n k => Precedes n.path k.path
  found : ∀ n, n ∈ nodes ↔ Beneath top depth n.path ∧
    ∃ input, ((e.getNode input world).runOn site).1 = .ok n

/-- A folder that is in sight, nearer than some depth, and can never be listed. -/
structure Unending (e : Engine) (world : World) (site : Site) (top : String) (depth : Nat)
    (folder : String) : Prop where
  within : Within top folder
  near : levels top folder < depth
  visible : ∃ n, ((e.getNode folder world).runOn site).1 = .ok n ∧ n.isFolder = true
  failure : ((e.listChildren folder world).runOn site).1 = .error (.unending folder)

theorem Sound.shows (sound : a.Sound scope) (depicts : a.engine.materializer.Depicts v a.store)
    (here : site.store = a.store) (timely : site.Timely)
    (answered : ((a.engine.getNode input world).runOn site).1 = .ok n) :
    Path.normalize input = .ok n.path ∧
      ∃ drawn, v.resolve a.engine.materializer world n.path = .ok drawn ∧
        n.isFolder = drawn.isFolder := by
  obtain ⟨drawn, looked, place, kind, normalized⟩ := sound.pictured depicts here timely answered
  obtain ⟨path, accepted, resolves⟩ := of_bind_ok looked
  cases (Engine.accept_ok_iff.mp accepted).2.symm.trans normalized
  exact ⟨normalized, drawn, resolves, kind⟩

section Seeing

variable (sound : a.Sound scope) (offers : a.engine.worlds.Offers world)
  (here : site.store = a.store) (timely : site.Timely)

include sound offers here timely

theorem Sound.found {path : String} {drawn : Node} (normal : IsNormal path)
    (resolves : a.picture.resolve a.engine.materializer world path = .ok drawn) :
    ∃ n, ((a.engine.getNode path world).runOn site).1 = .ok n ∧
      n.path = path ∧ n.name = drawn.name ∧
      n.isFolder = drawn.isFolder := by
  have depicts : a.engine.materializer.Depicts a.picture a.store := .self _ _
  have looked := (a.picture.getNode_normal offers normal).trans resolves
  have answer := (sound.looks depicts here timely path world).1
  rw [looked] at answer
  obtain ⟨n, answered, stands⟩ := answer.of_eq_ok
  have place := (depicts.placed sound.valid.wellFormed).getNode_path looked
  refine ⟨n, answered, ?_, stands.like.place.name, stands.like.isFolder⟩
  rw [stands.like.place.path]
  exact Except.ok.inj (place.symm.trans normal)

theorem Sound.lines_found {paths : List String} {depth : Nat} {top : String}
    (lists : a.picture.Enumerates a.engine.materializer world (Beneath top depth) paths) :
    ∃ nodes, Drawing a.engine world site top depth nodes
      (String.intercalate "\n"
        (top :: paths.map (a.picture.line a.engine.materializer world top))) := by
  have known : ∀ path, ∃ n, path ∈ paths →
    ((a.engine.getNode path world).runOn site).1 = .ok n ∧ n.path = path ∧
      a.picture.line a.engine.materializer world top path = n.treeLine (levels top path) := by
    intro path
    by_cases member : path ∈ paths
    · obtain ⟨normal, _, drawn, resolves⟩ := (lists.members path).mp member
      obtain ⟨n, answered, place, name, kind⟩ := sound.found offers here timely normal resolves
      exact ⟨n, fun _ => ⟨answered, place, (Picture.line_of_kid resolves name.symm kind.symm).symm⟩⟩
    · exact ⟨Node.root (nodeIdOf 0 path) Moment.epoch, fun among => absurd among member⟩
  choose found known using known
  refine ⟨paths.map found, ?_, ?_, fun n => ⟨fun member => ?_, ?_⟩⟩
  · rw [List.map_map]
    congr 2
    refine List.map_congr_left fun path member => ?_
    obtain ⟨_, place, line⟩ := known path member
    simp only [Function.comp_apply, line, place, Node.treeLine]
    split <;> simp
  · refine List.pairwise_map.mpr (lists.ordered.imp_of_mem fun before after precedes => ?_)
    rw [(known _ before).2.1, (known _ after).2.1]
    exact precedes
  · obtain ⟨path, among, rfl⟩ := List.mem_map.mp member
    obtain ⟨answered, place, _⟩ := known path among
    rw [place]
    exact ⟨((lists.members path).mp among).2.1, path, answered⟩
  · rintro ⟨beneath, input, answered⟩
    obtain ⟨normalized, drawn, resolves, _⟩ := sound.shows (.self _ _) here timely answered
    have among :=
      (lists.members n.path).mpr ⟨Path.normalize_isNormal normalized, beneath, drawn, resolves⟩
    have again := (known n.path among).1
    rw [← Engine.getNode_normalized normalized, answered] at again
    exact List.mem_map.mpr ⟨n.path, among, (Except.ok.inj again).symm⟩

theorem Sound.unending {top : String} {depth : Nat} {failure : Failure}
    (opens : a.picture.Opens a.engine.materializer world top depth folder)
    (fails : a.picture.Lists a.engine folder world (.error failure)) :
    Unending a.engine world site top depth folder ∧ failure = .unending folder := by
  obtain ⟨drawn, resolves, isFolder⟩ := opens.visible
  obtain ⟨n, answered, place, _, kind⟩ := sound.found offers here timely opens.normal resolves
  have depicts : a.engine.materializer.Depicts a.picture a.store := .self _ _
  have looked := (a.picture.getNode_normal offers opens.normal).trans resolves
  have placed := depicts.placed sound.valid.wellFormed
  have at_ : drawn.path = folder :=
    Except.ok.inj ((placed.getNode_path looked).symm.trans opens.normal)
  have same := fails
  rw [Picture.Lists, looked] at fails
  simp only [isFolder, if_true] at fails
  obtain ⟨gathered, gathers, failed⟩ := fails
  have blamed : failure = .unending folder := by
    cases gathered with
    | ok children =>
      obtain ⟨shown, told⟩ :=
        Materializer.visibles_told (Materializer.told_of_offers offers) children
      rw [Except.bind, told] at failed
      cases failed
    | error other =>
      cases failed
      rw [← at_]
      exact sound.gathers_told isFolder (by rw [at_]; exact opens.normal)
        (placed.getNode_lies looked) gathers rfl
  have answers := (sound.lists depicts here timely folder world).1.resemble same
  refine ⟨⟨opens.within, opens.near, ⟨n, answered, kind.trans isFolder⟩, ?_⟩, blamed⟩
  rw [answers.eq_error, blamed]

end Seeing

section Printing

variable (viewed : a.Viewed scope e v) (offers : e.worlds.Offers world)
  (here : site.store = a.store)
  (timely : site.Timely) (answered : ((e.getNode input world).runOn site).1 = .ok top)

include viewed here timely answered

theorem Viewed.looked : (a.after (.getNode input world) site).Viewed scope e v ∧
    (a.after (.getNode input world) site).store = ((e.getNode input world).runOn site).2.store ∧
    Path.normalize input = .ok top.path ∧
      ∃ drawn, v.resolve e.materializer world top.path = .ok drawn ∧
      top.isFolder = drawn.isFolder := by
  obtain ⟨sound, rfl, depicts⟩ := viewed
  have fits : (Operation.getNode input world).Fits := Operation.fits_of_reads trivial
  have later : (a.after (.getNode input world) site).Sound scope :=
    sound.turn (.operates _ fits here timely)
  have depicts' := sound.quiet depicts fits here timely (.reads trivial)
  exact ⟨⟨later, rfl, depicts'⟩, rfl, sound.shows depicts here timely answered⟩

theorem Viewed.placed_near (depth : Nat) (browsing : Turns scope (Browses world
      (v.Opens e.materializer world top.path depth)) (a.after (.getNode input world) site) b)
        (k : Node)
    (holds : b.store.Holds k) (absent : a.store.record? k.path = none)
    (inside : Within top.path k.path) : levels top.path k.path ≤ depth := by
  obtain ⟨viewed', _, normalized, _⟩ := viewed.looked here timely answered
  have normal := Path.normalize_isNormal normalized
  have shaped := (viewed'.turns browsing).1.sound.valid.wellFormed.shaped holds
  have fits : (Operation.getNode input world).Fits := Operation.fits_of_reads trivial
  have there : b.store.record? k.path ≠ none := by
    rw [holds]
    exact Option.some_ne_none _
  have near : ∀ folder, Path.parent? k.path = some folder →
      (IsNormal folder → Within top.path folder → levels top.path folder < depth) →
        levels top.path k.path ≤ depth := by
    intro folder parent above
    obtain ⟨normal', named, place⟩ := shaped.join (shaped.parent.trans parent)
    rw [place] at inside ⊢
    rcases (Path.within_join_iff normal normal' named).mp inside with higher | same
    · rw [Path.levels_join normal' named higher]
      exact above normal' higher
    · rw [same, Path.levels_self]
      exact Nat.zero_le _
  by_cases between : (a.after (.getNode input world) site).store.record? k.path = none
  · obtain ⟨folder, parent, opened, opens, toward⟩ :=
      (viewed'.confines browsing fun _ opens => opens.normal).placed k.path between there
    refine near folder parent fun _ higher => ?_
    have levels' := Path.levels_trans higher toward
    have deep := opens.near
    omega
  · obtain ⟨folder, parent, path, normalized', toward, apart⟩ :=
      (viewed.sound.valid.confines fits here timely).placed k.path absent between
    cases normalized.symm.trans normalized'
    exact near folder parent fun normal' higher =>
      absurd (Path.within_antisymm normal' normal toward higher) apart

include offers

theorem Viewed.draws (depth : UInt32) : ∃ b result,
    Turns scope (Browses world (v.Opens e.materializer world top.path depth.toNat))
      (a.after (.getNode input world) site) b ∧
    v.Drawn e world top.path (v.Opens e.materializer world top.path depth.toNat)
      (Beneath top.path depth.toNat) b.store result ∧
    ∀ disk, ((Command.run e world disk (.tree input depth)).runOn site).2.store = b.store ∧
      ((Command.run e world disk (.tree input depth)).runOn site).1
        = result.map fun lines => (String.intercalate "\n" (top.path :: lines), disk) := by
  obtain ⟨viewed', same, normalized, drawn, resolves, kind⟩ := viewed.looked here timely answered
  have normal := Path.normalize_isNormal normalized
  have timely' : ((e.getNode input world).runOn site).2.Timely := timely.run _
  obtain ⟨b, turns, there, ended⟩ :=
    sketches_below offers depth.toNat normal resolves kind _ _ viewed' same.symm timely'
  refine ⟨b, _, turns, ended, fun disk => ?_⟩
  rw [runOn_tree answered]
  exact ⟨there, rfl⟩

end Printing

theorem Viewed.lists_told {failure : Failure} (viewed : a.Viewed scope e v)
    (offers : e.worlds.Offers world)
    (normal : IsNormal folder) (told : a.store.Told world folder) :
    ¬ v.Lists e folder world (.error failure) := by
  intro fails
  obtain ⟨sound, rfl, depicts⟩ := viewed
  obtain ⟨_, nodes, listed⟩ :=
    sound.relists offers normal told (Site.still_store _) (Site.still_timely _)
  have lists := (sound.lists depicts (Site.still_store _) (Site.still_timely _) folder world).1
  rw [listed] at lists
  exact lists.resemble fails

theorem Viewed.draws_again {there : Site} {depth : UInt32} {paths : List String}
    (viewed : b.Viewed scope e v)
    (offers : e.worlds.Offers world) (normalized : Path.normalize input = .ok top.path)
    (attests : b.store.Attests world top.path)
    (told : ∀ folder, v.Opens e.materializer world top.path depth.toNat folder →
      b.store.Told world folder)
    (lists : v.Enumerates e.materializer world (Beneath top.path depth.toNat) paths)
    (same : there.store = b.store) (timely : there.Timely) (disk : Disk) :
    ((Command.run e world disk (.tree input depth)).runOn there).1 = .ok
      (String.intercalate "\n" (top.path :: paths.map (v.line e.materializer world top.path)),
        disk) ∧
    ((Command.run e world disk (.tree input depth)).runOn there).2.store = there.store := by
  obtain ⟨k, found, _⟩ := attests.record (Path.normalize_isNormal normalized)
  obtain ⟨holds, place⟩ := viewed.sound.valid.wellFormed.holds found
  have answered : ((e.getNode input world).runOn there).1 = .ok k ∧
      ((e.getNode input world).runOn there).2.store = there.store := by
    obtain ⟨sound, rfl, _⟩ := viewed
    rw [← place] at normalized attests
    exact sound.looks_along offers normalized attests holds same timely
  obtain ⟨viewed', kept, _⟩ := viewed.looked same timely answered.1
  obtain ⟨c, result, turns, drawn, printed⟩ := viewed.draws offers same timely answered.1 depth
  rw [place] at turns drawn printed
  have unchanged : (b.after (.getNode input world) there).store = b.store :=
    kept.trans (answered.2.trans same)
  have still := viewed'.still turns offers (fun _ opens => opens.normal) fun folder opens =>
    unchanged.symm ▸ told folder opens
  obtain ⟨left, shown⟩ := printed disk
  refine ⟨?_, by rw [left, still, unchanged, same]⟩
  rw [shown]
  cases drawn with
  | unending member fails =>
    exact absurd fails (viewed.lists_told offers member.normal (told _ member))
  | whole lists' _ =>
    rw [lists.unique lists']
    rfl

/-- The tree of what a world shows, to some depth. Unless a folder in sight can never be listed, one
line is printed for each node that a lookup finds, in depth-first order; printed again, the text is
the same and the store stays as it is. In any case nothing is added deeper below the top than was
asked for. -/
theorem branches_printed (reached : a.Reached scope) (offers : a.engine.worlds.Offers world)
    (here : site.store = a.store) (timely : site.Timely)
    (answered : ((a.engine.getNode input world).runOn site).1 = .ok top) (depth : UInt32) :
    (∀ disk k, ((Command.run a.engine world disk (.tree input depth)).runOn site).2.store.Holds k →
      a.store.record? k.path = none → Within top.path k.path →
        levels top.path k.path ≤ depth.toNat) ∧
    ((∃ folder, Unending a.engine world site top.path depth.toNat folder ∧ ∀ disk,
        ((Command.run a.engine world disk (.tree input depth)).runOn site).1 =
          .error (.unending folder)) ∨
      ∃ nodes text, Drawing a.engine world site top.path depth.toNat nodes text ∧ ∀ disk,
        ((Command.run a.engine world disk (.tree input depth)).runOn site).1 = .ok (text, disk) ∧
        ∀ there : Site, there.store =
          ((Command.run a.engine world disk (.tree input depth)).runOn site).2.store →
          there.Timely → ∀ other,
            ((Command.run a.engine world other (.tree input depth)).runOn there).1 =
              .ok (text, other) ∧
            ((Command.run a.engine world other (.tree input depth)).runOn there).2.store =
              there.store) := by
  have sound := reached.sound
  have viewed : a.Viewed scope a.engine a.picture := ⟨sound, rfl, .self _ _⟩
  obtain ⟨b, result, turns, drawn, printed⟩ := viewed.draws offers here timely answered depth
  refine ⟨fun disk k holds absent inside => ?_, ?_⟩
  · rw [(printed disk).1] at holds
    exact viewed.placed_near here timely answered depth.toNat turns k holds absent inside
  cases drawn with
  | unending member fails =>
    obtain ⟨unending, rfl⟩ := sound.unending offers here timely member fails
    exact Or.inl ⟨_, unending, fun disk => (printed disk).2⟩
  | whole lists told =>
    obtain ⟨nodes, drawing⟩ := sound.lines_found offers here timely lists
    obtain ⟨normalized, attests⟩ := sound.attested offers here timely answered
    have viewed' := (viewed.looked here timely answered).1
    have attests' := viewed'.attests_after turns attests
    refine Or.inr ⟨nodes, _, drawing,
      fun disk => ⟨(printed disk).2, fun there same timely' other => ?_⟩⟩
    rw [(printed disk).1] at same
    exact (viewed'.turns turns).1.draws_again offers normalized attests'
      told lists same timely' other

theorem dimTree_branches : ∃ top nodes, dimTree.Reached dimScope ∧
    ((dimTree.engine.getNode "/" (.named "dim")).runOn (.still dimTree.store)).1 = .ok top ∧
    Drawing dimTree.engine (.named "dim") (.still dimTree.store) top.path 1 nodes
      "/\n  backup.json\n  cedar.bin\n  harbor.txt\n  kelp_nectar/\n  willow_velvet/\n  xenon_saffron/" ∧
    ∀ there : Site, there.store =
      ((Command.run dimTree.engine (.named "dim") {} (.tree "/" 1)).runOn
        (.still dimTree.store)).2.store → there.Timely →
      ((Command.run dimTree.engine (.named "dim") {} (.tree "/" 1)).runOn there).2.store =
        there.store := by
  have reached : dimTree.Reached dimScope := ⟨_, dimTree_begins, .none _⟩
  have offers : dimTree.engine.worlds.Offers (.named "dim") := Std.ExtTreeMap.mem_insert_self
  have good :
      ((dimTree.engine.getNode "/" (.named "dim")).runOn (.still dimTree.store)).1.isOk = true := by
    decide +kernel
  have shown : (((Command.run dimTree.engine (.named "dim") {} (.tree "/" 1)).runOn
      (.still dimTree.store)).1.toOption.map Prod.fst)
        = some "/\n  backup.json\n  cedar.bin\n  harbor.txt\n  kelp_nectar/\n  willow_velvet/\n  xenon_saffron/" := by
    decide +kernel
  cases answered : ((dimTree.engine.getNode "/" (.named "dim")).runOn (.still dimTree.store)).1 with
  | error failure =>
    rw [answered] at good
    cases good
  | ok top =>
    obtain ⟨_, ⟨folder, _, fails⟩ | ⟨nodes, text, drawing, printed⟩⟩ :=
      branches_printed reached offers (Site.still_store _) (Site.still_timely _) answered 1
    · rw [fails {}] at shown
      cases shown
    · obtain ⟨prints, again⟩ := printed {}
      rw [prints] at shown
      cases shown
      exact ⟨top, nodes, reached, rfl, drawing,
        fun there same timely => (again there same timely {}).2⟩

end Session

end SeedTree
