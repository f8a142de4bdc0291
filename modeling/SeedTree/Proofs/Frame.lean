import SeedTree.Proofs.Aiming
import SeedTree.Proofs.Engine.Aging

/- A creation, an upload or a deletion that succeeds is about one path, its target. Apart from it,
   records only age, what is new has been generated above the target, and whoever looks elsewhere
   finds what was found before. -/
namespace SeedTree

variable {e : Engine} {m : Materializer} {scope : Scope} {s t : Store}
  {n k shown : Node} {v : Picture} {path target input : String} {world : World} {r : Operation}

def WorldTable.Offers (worlds : WorldTable) : World → Prop
  | .primary => True
  | .named name => name ∈ worlds.entries

theorem Materializer.told_of_offers (offers : m.worlds.Offers world) (n : Node) :
    ∃ visible, m.sees n world = .ok visible := by
  cases decision : n.decision? world with
  | some decided => exact ⟨decided, m.sees_of_decision decision⟩
  | none =>
    unfold Materializer.sees
    rw [decision]
    cases world with
    | primary => exact ⟨true, rfl⟩
    | named name =>
      obtain ⟨probability, found⟩ := (mem_iff_getElem?_some _ _).mp offers
      exact ⟨_, m.draws_configured n.id found⟩

theorem WorldTable.check_of_offers {worlds : WorldTable} (offers : worlds.Offers world) :
    worlds.check world = .ok () := by
  cases world with
  | primary => rfl
  | named name =>
    have listed : worlds.entries.contains name = true := Std.ExtTreeMap.contains_iff_mem.mpr offers
    unfold check resolve
    simp only [World.name, listed, if_true]
    split <;> rfl

theorem Node.Aged.unread {folder : Node} {time : Moment} {spec : ChildSpec}
    (aged : (m.generatedChild folder time spec).Aged m k) : k.checksum = none := by
  rw [aged.checksum]
  rfl

/-- Two nodes found before and after: they resemble each other, and one that was on record before
has the same time of writing. -/
structure Node.Echoes (m : Materializer) (s : Store)
    (n k : Node) : Prop extends Node.Resembles m n k where
  checksum : k.checksum = n.checksum
  updated : s.record? n.path ≠ none → k.updated = n.updated

theorem Node.Resembles.echoes (resembles : n.Resembles m k)
    (early : m.Ages (s.record? n.path) (some n))
    (late : m.Ages (s.record? k.path) (some k)) : n.Echoes m s k := by
  rw [resembles.place.path] at late
  refine { resembles with checksum := ?_, updated := fun there => ?_ }
  · generalize s.record? n.path = found at early late
    cases early with
    | aged aged =>
      cases late with
      | aged aged' => exact aged'.checksum.trans aged.checksum.symm
    | born _ _ _ aged =>
      cases late with
      | born _ _ _ aged' => rw [aged.unread, aged'.unread]
  · generalize s.record? n.path = found at early late there
    cases early with
    | aged aged =>
      cases late with
      | aged aged' => exact aged'.updated.trans aged.updated.symm
    | born => exact absurd rfl there

theorem Agree.imp {α β : Type} {first second : α → β → Prop}
    {x : Except Failure α} {y : Except Failure β}
    (agree : Agree first x y) (implies : ∀ a b, x = .ok a → y = .ok b → first a b → second a b) :
    Agree second x y := by
  cases x <;> cases y <;> simp only [Agree] at agree ⊢
  · exact agree
  · exact implies _ _ rfl rfl agree

theorem of_map_ok {α β : Type} {x : Except Failure α} {f : α → β} {b : β} (done : x.map f = .ok b) :
    ∃ a, x = .ok a ∧ f a = b := by
  cases x with
  | error failure => cases done
  | ok a => exact ⟨a, rfl, Except.ok.inj done⟩

theorem Agree.echoes {x y : Except Failure (List Node)}
    (agree : Agree (List.Forall₂ (Node.Resembles m)) x y)
    (early : ∀ nodes, x = .ok nodes → ∀ n ∈ nodes, m.Ages (s.record? n.path) (some n))
    (late : ∀ nodes, y = .ok nodes → ∀ n ∈ nodes, m.Ages (s.record? n.path) (some n)) :
    Agree (List.Forall₂ (Node.Echoes m s)) x y := by
  refine agree.imp fun nodes others here there resemble => ?_
  have known := (List.forall₂_and_left nodes others).mpr ⟨early nodes here, resemble⟩
  have known' := (List.forall₂_and_left others nodes).mpr ⟨late others there, known.flip⟩
  exact known'.flip.imp fun n k both => both.2.2.echoes both.2.1 both.1

section Answering

variable {site : Site} (wf : site.store.WellFormed scope e.materializer.parameters)
  (ready : e.Ready scope e.materializer.parameters)

include wf ready

theorem Seen.ages (seen : Seen e.materializer scope site.store t shown n) :
    e.materializer.Ages (site.store.record? n.path) (some n) := by
  obtain ⟨u, before, holds, _⟩ := seen
  have known := before.ages ready.within wf fun _ walks => Deed.passes_of_walks walks n.path
  rw [holds] at known
  exact known

theorem ages_getNode (timely : site.Timely)
    (answered : ((e.getNode input world).runOn site).1 = .ok n) :
    e.materializer.Ages (site.store.record? n.path) (some n) := by
  have ends : (e.getNode input world).Ends
      (Setting.alone scope e.materializer.parameters) [] site.store _ :=
    ends_getNode wf ready
  have known := (ends.runOn timely).answer
  rw [answered] at known
  obtain ⟨_, _, seen⟩ := known.of_ok
  exact seen.ages wf ready

theorem ages_listChildren (timely : site.Timely) {nodes : List Node}
    (answered : ((e.listChildren input world).runOn site).1 = .ok nodes) (member : n ∈ nodes) :
    e.materializer.Ages (site.store.record? n.path) (some n) := by
  have ends : (e.listChildren input world).Ends
      (Setting.alone scope e.materializer.parameters) [] site.store _ :=
    ends_listChildren wf ready
  obtain ⟨_, ⟨failure, _, failed⟩ | ⟨path, _, listed⟩⟩ := ends.runOn timely
  · rw [answered] at failed
    cases failed
  · rw [answered] at listed
    generalize same : (Except.ok nodes : Except Failure (List Node)) = result at listed
    cases listed with
    | hidden => cases same
    | file => cases same
    | unending => cases same
    | @folder shown children resolved isFolder contents =>
      have among := Materializer.mem_of_visibles same.symm member
      have known := contents.shown n.name (contents.named n among)
      rw [find?_of_distinct (Blueprint.Sorted.distinct contents.sorted) among] at known
      obtain ⟨_, _, ⟨seen⟩⟩ := known.of_ok
      exact seen.ages wf ready

end Answering

namespace Session

/-- What a session has become apart from what is at one path. -/
structure Frames (a b : Session) (target : String) : Prop where
  /-- Records stay, and only those above the target are marked or get decisions put down. -/
  kept : ∀ n, a.store.Holds n → n.path ≠ target → ∃ k, b.store.record? n.path = some k ∧
    n.Aged a.engine.materializer k ∧ (¬ Path.Within n.path target → k = n)
  /-- What is new has been generated by a folder above the target. -/
  new : ∀ k, b.store.Holds k → k.path ≠ target → a.store.record? k.path = none →
    ∃ host time specs spec, b.store.Holds host ∧ Path.Within host.path target ∧ host.path ≠ target ∧
      a.engine.materializer.specs? host = some specs ∧ spec ∈ specs ∧
      (a.engine.materializer.generatedChild host time spec).Aged a.engine.materializer k
  /-- Lookups elsewhere answer as before. -/
  lookups : ∀ (input : String) (world : World),
    (∀ path, Path.normalize input = .ok path → ¬ Path.Within target path) →
    ∀ site site' : Site, site.store = a.store → site.Timely → site'.store = b.store → site'.Timely →
      Agree (Node.Echoes a.engine.materializer a.store)
        ((a.engine.getNode input world).runOn site).1
        ((b.engine.getNode input world).runOn site').1
  /-- And so do listings. -/
  listings : ∀ (input : String) (world : World),
    (∀ path, Path.normalize input = .ok path → ¬ Path.Within target path ∧
      Path.parent? target ≠ some path) →
    ∀ site site' : Site, site.store = a.store → site.Timely → site'.store = b.store → site'.Timely →
      Agree (List.Forall₂ (Node.Echoes a.engine.materializer a.store))
        ((a.engine.listChildren input world).runOn site).1
          ((b.engine.listChildren input world).runOn site').1
  /-- The folder that the target lies in is listed as before, apart from the target. -/
  beside : ∀ (input path : String) (world : World), Path.normalize input = .ok path →
    Path.parent? target = some path → a.engine.worlds.Offers world →
    ∀ site site' : Site, site.store = a.store → site.Timely → site'.store = b.store → site'.Timely →
      Agree (List.Forall₂ (Node.Echoes a.engine.materializer a.store))
        (((a.engine.listChildren input world).runOn site).1.map (List.filter (·.path ≠ target)))
        (((b.engine.listChildren input world).runOn site').1.map (List.filter (·.path ≠ target)))

variable {a : Session} {site : Site}

section Looking

variable (sound : a.Sound scope) (depicts : a.engine.materializer.Depicts v a.store)
  (here : site.store = a.store) (timely : site.Timely)

include sound depicts here timely

theorem Sound.looks (input : String) (world : World) :
    Agree (Node.StandsFor a.engine.materializer) (v.getNode a.engine input world)
        ((a.engine.getNode input world).runOn site).1 ∧
      ∀ n, ((a.engine.getNode input world).runOn site).1 = .ok n →
        a.engine.materializer.Ages (a.store.record? n.path) (some n) := by
  obtain ⟨_, ⟨answers, _⟩, _⟩ := sound.foretold (r := .getNode input world) depicts
    (Operation.fits_of_reads trivial) trivial here timely fun sums => sums.elim
  refine ⟨answers, fun n answered => ?_⟩
  have wf := sound.valid.wellFormed
  rw [← here] at wf ⊢
  exact ages_getNode wf sound.valid.ready timely answered

theorem Sound.pictured (found : ((a.engine.getNode input world).runOn site).1 = .ok n) :
    ∃ drawn, v.getNode a.engine input world = .ok drawn ∧ n.path = drawn.path ∧
      n.isFolder = drawn.isFolder ∧
      Path.normalize input = .ok n.path := by
  have answers := (sound.looks depicts here timely input world).1
  rw [found] at answers
  obtain ⟨drawn, shown, stands⟩ := answers.of_ok
  obtain ⟨path, accepted, resolves⟩ := of_bind_ok shown
  have normalized := (Engine.accept_ok_iff.mp accepted).2
  have place : n.path = drawn.path := stands.like.place.path
  have place' :=
    ((depicts.placed sound.valid.wellFormed).resolve
      (Path.normalize_isNormal normalized) resolves).2
  exact ⟨drawn, shown, place, stands.like.isFolder, by rw [place, place']; exact normalized⟩

theorem Sound.lists (input : String) (world : World) :
    v.Lists a.engine input world ((a.engine.listChildren input world).runOn site).1 ∧
      ∀ nodes, ((a.engine.listChildren input world).runOn site).1 = .ok nodes → ∀ n ∈ nodes,
        a.engine.materializer.Ages (a.store.record? n.path) (some n) := by
  obtain ⟨_, ⟨answers, _⟩, _⟩ := sound.foretold (r := .listChildren input world) depicts
    (Operation.fits_of_reads trivial) trivial here timely fun sums => sums.elim
  refine ⟨answers, fun nodes answered n member => ?_⟩
  have wf := sound.valid.wellFormed
  rw [← here] at wf ⊢
  exact ages_listChildren wf sound.valid.ready timely answered member

end Looking

section Mutating

variable (sound : a.Sound scope) (mutates : r.Mutates) (fits : r.Fits) (here : site.store = a.store)
  (timely : site.Timely)

include sound mutates fits here timely

theorem Sound.ages (targets : r.Targets target) (path : String) (apart : path ≠ target) :
    a.engine.materializer.Ages (a.store.record? path) ((a.after r site).store.record? path) :=
  (sound.valid.leaves fits here timely).ages sound.valid.ready.within sound.valid.wellFormed mutates
    fun targets' => apart (Operation.only_target mutates targets' targets)

theorem Sound.confines (targets : r.Targets target) :
    a.store.Confines (r.Fills target) (Path.Within · target) (a.after r site).store := by
  have wf := sound.valid.wellFormed
  rw [← here] at wf ⊢
  have ends : (r.run a.engine).Ends
      (Setting.alone scope a.engine.materializer.parameters) [] site.store _ :=
    ends_run wf sound.valid.ready r fits
  exact (Operation.roams_run mutates targets).confines ends wf.regular timely

theorem Sound.kept (targets : r.Targets target) (holds : a.store.Holds n)
    (apart : n.path ≠ target) :
    ∃ k, (a.after r site).store.record? n.path = some k ∧ n.Aged a.engine.materializer k ∧
      (¬ Path.Within n.path target → k = n) := by
  have ages := sound.ages mutates fits here timely targets _ apart
  rw [holds] at ages
  generalize found : (a.after r site).store.record? n.path = later at ages
  cases ages with
  | @aged _ k aged =>
    refine ⟨k, rfl, aged, fun elsewhere => ?_⟩
    have stays := (sound.confines mutates fits here timely targets).stays _ n elsewhere holds
    rw [found] at stays
    exact Option.some.inj stays

theorem Sound.generated (targets : r.Targets target) (holds : (a.after r site).store.Holds k)
    (apart : k.path ≠ target) (absent : a.store.record? k.path = none) :
    ∃ host time specs spec, (a.after r site).store.Holds host ∧ r.Fills target host.path ∧
      a.engine.materializer.specs? host = some specs ∧ spec ∈ specs ∧
      (a.engine.materializer.generatedChild host time spec).Aged a.engine.materializer k := by
  have wf := (sound.turn (.operates r fits here timely)).valid.wellFormed
  have ages := sound.ages mutates fits here timely targets _ apart
  rw [absent, holds] at ages
  cases ages with
  | @born folder _ time specs spec shaped drawn member aged =>
    obtain ⟨host, found, isFolder, _⟩ := wf.parented k folder.path holds aged.like.place.parent
    obtain ⟨stands, place⟩ := wf.holds found
    have depth : host.depth = folder.depth := by rw [(wf.shaped stands).depth, place, shaped.depth]
    refine ⟨host, time, specs, spec, stands, ?_, ?_, member, ?_⟩
    · obtain ⟨above, parent, fills⟩ :=
        (sound.confines mutates fits here timely targets).placed k.path absent
          (by rw [holds]; exact Option.some_ne_none _)
      rw [← (wf.shaped holds).parent, aged.like.place.parent] at parent
      cases parent
      rw [place]
      exact fills
    · rw [Materializer.specs?_congr place depth, drawn]
    · rw [Materializer.generatedChild_congr place depth]
      exact aged

theorem Sound.aimed (depicts : a.engine.materializer.Depicts v a.store)
    (succeeded : ((r.run a.engine).runOn site).1.isOk = true) :
    ∃ target found, v.Aims r target (v.put target found) ∧
      a.engine.materializer.Depicts (v.put target found) (a.after r site).store ∧
      (r.Removes target → found = none) := by
  have byPath : r.ByPath := by cases r <;> trivial
  have sumless : ¬ r.Sums := by cases r <;> first | exact id | exact mutates.elim
  obtain ⟨next, foretells, depicts'⟩ := sound.foretold depicts fits byPath here timely fun sums =>
    absurd sums sumless
  obtain ⟨answer, ok⟩ : ∃ answer, ((r.run a.engine).runOn site).1 = .ok answer := by
    cases result : ((r.run a.engine).runOn site).1 with
    | error failure =>
      rw [result] at succeeded
      cases succeeded
    | ok answer => exact ⟨answer, rfl⟩
  rw [ok] at foretells
  obtain ⟨target, aims⟩ := depicts.aims sound.valid.wellFormed mutates foretells
  obtain ⟨found, rfl, _, gone⟩ := aims.put
  exact ⟨target, found, aims, depicts', gone⟩

end Mutating

section Observing

variable {later : Session} {next : Picture} {first second : Site} (sound : a.Sound scope)
  (sound' : later.Sound scope)
  (engine : later.engine = a.engine) (depicts : a.engine.materializer.Depicts v a.store)
  (depicts' : a.engine.materializer.Depicts next later.store) (early : first.store = a.store)
  (early_timely : first.Timely) (late : second.store = later.store) (late_timely : second.Timely)
  (ages : ∀ path, path ≠ target →
    a.engine.materializer.Ages (a.store.record? path) (later.store.record? path))

include sound sound' engine depicts depicts' early early_timely late late_timely ages

theorem Sound.looks_alike
    (same : next.getNode a.engine input world = v.getNode a.engine input world)
    (apart : ∀ n, v.getNode a.engine input world = .ok n → n.path ≠ target) :
    Agree (Node.Echoes a.engine.materializer a.store) ((a.engine.getNode input world).runOn first).1
      ((later.engine.getNode input world).runOn second).1 := by
  rw [← engine] at depicts'
  obtain ⟨answers, seen⟩ := sound.looks depicts early early_timely input world
  obtain ⟨answers', seen'⟩ := sound'.looks depicts' late late_timely input world
  rw [engine] at answers' seen' ⊢
  rw [same] at answers'
  refine (answers.both answers' fun _ _ _ => Node.StandsFor.resembles).imp
    fun n k here' there' resembles => resembles.echoes (seen n here') ?_
  refine (ages k.path ?_).trans (seen' k there')
  rw [there'] at answers'
  obtain ⟨drawn, looked, stands⟩ := answers'.of_ok
  rw [stands.like.place.path]
  exact apart drawn looked

theorem Sound.lists_alike
    (same : ∀ x, next.Lists a.engine input world x → v.Lists a.engine input world x)
    (apart : ∀ nodes, next.Lists a.engine input world (.ok nodes) → ∀ n ∈ nodes, n.path ≠ target) :
    Agree (List.Forall₂ (Node.Echoes a.engine.materializer a.store))
      ((a.engine.listChildren input world).runOn first).1
      ((later.engine.listChildren input world).runOn second).1 := by
  rw [← engine] at depicts'
  obtain ⟨answers, seen⟩ := sound.lists depicts early early_timely input world
  obtain ⟨answers', seen'⟩ := sound'.lists depicts' late late_timely input world
  rw [engine] at answers' seen' ⊢
  refine (answers.resemble (same _ answers')).echoes seen fun nodes answered n member => ?_
  refine (ages n.path ?_).trans (seen' nodes answered n member)
  rw [answered] at answers'
  exact apart nodes answers' n member

theorem Sound.lists_beside {path : String} (placed : v.Placed) (aims : v.Aims r target next)
    (normalized : Path.normalize input = .ok path) (above : Path.parent? target = some path)
    (offers : a.engine.worlds.Offers world) :
    Agree (List.Forall₂ (Node.Echoes a.engine.materializer a.store))
      (((a.engine.listChildren input world).runOn first).1.map (List.filter (·.path ≠ target)))
      (((later.engine.listChildren input world).runOn second).1.map
        (List.filter (·.path ≠ target))) := by
  rw [← engine] at depicts'
  obtain ⟨answers, seen⟩ := sound.lists depicts early early_timely input world
  obtain ⟨answers', seen'⟩ := sound'.lists depicts' late late_timely input world
  rw [engine] at answers' seen' ⊢
  have told := fun n => Materializer.told_of_offers (m := a.engine.materializer) offers n
  refine (placed.lists_beside told aims normalized above answers answers').echoes ?_ ?_
  · intro nodes answered n member
    obtain ⟨all, listed, rfl⟩ := of_map_ok answered
    exact seen all listed n (List.mem_filter.mp member).1
  · intro nodes answered n member
    obtain ⟨all, listed, rfl⟩ := of_map_ok answered
    obtain ⟨among, apart⟩ := List.mem_filter.mp member
    exact (ages n.path (by simpa using apart)).trans (seen' all listed n among)

end Observing

/-- A creation, an upload or a deletion that succeeds touches nothing but its target. -/
theorem mutation_frames (reached : a.Reached scope) (mutates : r.Mutates) (fits : r.Fits)
    (here : site.store = a.store) (timely : site.Timely)
    (succeeded : ((r.run a.engine).runOn site).1.isOk = true) :
    ∃ target, r.Targets target ∧ Frames a (a.after r site) target := by
  have sound := reached.sound
  have sound' : (a.after r site).Sound scope := sound.turn (.operates r fits here timely)
  have depicts := Materializer.Depicts.self a.engine.materializer a.store
  have placed := depicts.placed sound.valid.wellFormed
  obtain ⟨target, found, aims, depicts', gone⟩ :=
    sound.aimed mutates fits here timely depicts succeeded
  have ages := sound.ages mutates fits here timely aims.targets
  refine ⟨target, aims.targets, ?_, ?_, ?_, ?_, ?_⟩
  · exact fun n holds apart => sound.kept mutates fits here timely aims.targets holds apart
  · intro k holds apart absent
    obtain ⟨host, time, specs, spec, stands, fills, drawn, member, aged⟩ :=
      sound.generated mutates fits here timely aims.targets holds apart absent
    refine ⟨host, time, specs, spec, stands, fills.1, fun same => ?_, drawn, member, aged⟩
    have normal : Path.IsNormal host.path := same ▸ aims.normal
    have there : a.engine.materializer.shows (a.after r site).store host.path = .ok (some host) :=
      sound'.valid.wellFormed.shows_record normal stands
    have shown := depicts' host.path normal
    rw [there, same, Picture.put_here, gone (fills.2 same)] at shown
    cases shown
  · intro input world apart first second early early_timely late late_timely
    refine sound.looks_alike sound' rfl depicts depicts' early early_timely late late_timely ages
      (placed.getNode_put apart) ?_
    rintro n looked rfl
    exact apart _ (placed.getNode_path looked) (Path.within_refl _)
  · intro input world apart first second early early_timely late late_timely
    refine sound.lists_alike sound' rfl depicts depicts' early early_timely late late_timely ages
      (fun x => placed.lists_put apart) ?_
    rintro nodes lists n member rfl
    obtain ⟨path, normalized, above⟩ := placed.lists_parent (placed.lists_put apart lists) member
    exact (apart path normalized).2 above
  · intro input path world normalized above offers first second early early_timely late late_timely
    exact sound.lists_beside sound' rfl depicts depicts' early early_timely late
      late_timely ages placed aims
      normalized above offers

theorem newFolder_frames : newTree.Reached .bare ∧
    (((Operation.createFolder "/" .primary "a").run newTree.engine).runOn
      (.still newTree.store)).1.isOk = true ∧
    Frames newTree newFolder "/a" := by
  have reached : newTree.Reached .bare := ⟨_, newTree_begins, .none _⟩
  have mutates : (Operation.createFolder "/" .primary "a").Mutates := trivial
  have short : IsShort (Path.join "/" "a") := by decide +kernel
  have fits : (Operation.createFolder "/" .primary "a").Fits :=
    Operation.fits_createFolder (by rfl) short
  have succeeded : (((Operation.createFolder "/" .primary "a").run newTree.engine).runOn
      (.still newTree.store)).1.isOk = true := by decide +kernel
  obtain ⟨target, targets, frames⟩ :=
    mutation_frames reached mutates fits (Site.still_store _) (Site.still_timely _) succeeded
  have targets' : (Operation.createFolder "/" .primary "a").Targets "/a" :=
    Or.inl ⟨"/", by rfl, by decide +kernel, by decide +kernel⟩
  cases Operation.only_target mutates targets targets'
  exact ⟨reached, succeeded, frames⟩

end Session

end SeedTree
