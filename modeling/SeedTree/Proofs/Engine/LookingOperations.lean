import SeedTree.Proofs.Engine.Foretold
import SeedTree.Proofs.Engine.Looking

/- The operations that look at nodes, while others look too. Each answers what the picture of the
   store that they started on foretells, and leaves the traces that the picture tells. -/
namespace SeedTree

open Attempt

namespace Picture

inductive Treads (v : Picture) (m : Materializer) (world : World) :
    List String → Node → Trace → Prop where
  | opens {name : String} {more : List String} {here : Node} (isFolder : here.isFolder = true) :
      Treads v m world (name :: more) here (.expanded here.path)
  | decides {name decider : String} {more : List String} {here child : Node}
      (isFolder : here.isFolder = true) (found : v (Path.join here.path name) = .ok (some child))
      (decides : world = .named decider) :
        Treads v m world (name :: more) here (.decided child.path decider)
  | onward {name : String} {more : List String} {here child : Node} {trace : Trace}
      (isFolder : here.isFolder = true) (found : v (Path.join here.path name) = .ok (some child))
      (seen : m.sees child world = .ok true) (rest : Treads v m world more child trace) :
      Treads v m world (name :: more) here trace

theorem Treads.all {v : Picture} {m : Materializer} {world : World}
    {name : String} {more : List String}
    {here : Node} {known : Trace → Prop}
    (opens : here.isFolder = true → known (.expanded here.path))
    (below : ∀ child, v (Path.join here.path name) = .ok (some child) →
      (∀ decider, world = .named decider → known (.decided child.path decider)) ∧
        (m.sees child world = .ok true → ∀ trace, Treads v m world more child trace → known trace))
    (trace : Trace) (treads : Treads v m world (name :: more) here trace) : known trace := by
  cases treads with
  | opens isFolder => exact opens isFolder
  | decides _ found decides => exact (below _ found).1 _ decides
  | onward _ found seen rest => exact (below _ found).2 seen trace rest

inductive Scans (v : Picture) (world : World) (folder : Node) : Trace → Prop where
  | opens : Scans v world folder (.expanded folder.path)
  | decides {name decider : String} {child : Node} (named : Path.IsName name)
      (found : v (Path.join folder.path name) = .ok (some child))
        (decides : world = .named decider) :
      Scans v world folder (.decided child.path decider)

def Passes (v : Picture) (e : Engine) (input : String) (world : World) (trace : Trace) : Prop :=
  ∃ path top, e.accept input world = .ok path ∧ v Path.root = .ok (some top) ∧
    v.Treads e.materializer world (Path.components path) top trace

def Leaves (v : Picture) (e : Engine) : Operation → Trace → Prop
  | .getNode input world, trace => v.Passes e input world trace
  | .listChildren input world, trace => v.Passes e input world trace ∨
    ∃ folder, v.getNode e input world = .ok folder ∧ folder.isFolder = true ∧
      v.Scans world folder trace
  | _, _ => False

end Picture

namespace Operation

def Looks : Operation → Prop
  | .getNode .. | .listChildren .. => True
  | _ => False

theorem reads_of_looks {r : Operation} (looks : r.Looks) : r.Reads := by
  cases r <;> first | exact looks.elim | trivial

def Tells : (r : Operation) → r.Answer → Node → Prop
  | .getNode .., n, k | .createFolder .., n, k | .createFolderAll .., n, k | .uploadFile .., n, k =>
    k = n
  | .listChildren .., children, k => k ∈ children
  | .deleteNode .., _, _ | .readContent _, _, _ | .readRange .., _, _ | .checksum .., _, _ => False

/-- An answer tells of nodes as a store shows them, but for what has been added since. -/
def Faithful (m : Materializer) (s : Store) (r : Operation)
    (result : Except Failure r.Answer) : Prop :=
  ∀ answer, result = .ok answer → ∀ n, r.Tells answer n →
    ∃ d, m.shows s n.path = .ok (some d) ∧ d.Grown m n

/-- What an operation that looks at nodes has done when it ends: it answers as the picture of the
first store foretells, and has left its traces. -/
structure Reports (e : Engine) (origin t : Store) (r : Operation)
    (result : Except Failure r.Answer) : Prop where
  foretold : Picture.Foretells (e.materializer.shows origin) e r result
    (e.materializer.shows origin)
  faithful : r.Faithful e.materializer origin result
  bears : ∀ trace, Picture.Leaves (e.materializer.shows origin) e r trace →
    e.materializer.Bears origin t trace

end Operation

variable {e : Engine} {m : Materializer} {scope : Scope}
  {traces : Trace → Prop} {origin s t : Store}
  {n d : Node} {path input name : String} {world : World}

theorem Materializer.Recalls.standsFor (recalls : m.Recalls origin s d n) : d.StandsFor m n :=
  ⟨recalls.grown.like, recalls.clear⟩

theorem Materializer.mem_of_visibles {nodes found : List Node}
    (visible : m.visibles world nodes = .ok found) (member : n ∈ found) : n ∈ nodes := by
  induction nodes generalizing found with
  | nil =>
    cases visible
    exact member
  | cons k more ih =>
    obtain ⟨shows, _, visible⟩ := of_bind_ok visible
    obtain ⟨rest, others, visible⟩ := of_bind_ok visible
    cases visible
    split at member
    · rcases List.mem_cons.mp member with rfl | later
      · exact List.mem_cons_self
      · exact List.mem_cons_of_mem _ (ih others later)
    · exact List.mem_cons_of_mem _ (ih others member)

theorem Materializer.unconfigured_of_sees {decider : String} {failure : Failure}
    (failed : m.sees n (.named decider) = .error failure) : m.worlds.entries[decider]? = none := by
  unfold Materializer.sees at failed
  split at failed
  · cases failed
  · cases failed
  · rename_i same
    cases same
    cases configured : m.worlds.entries[decider]? with
    | none => rfl
    | some probability =>
      rw [m.draws_configured n.id configured] at failed
      cases failed

/-- A walk down from a node has ended: it answers as the picture of the first store foretells, and
has left its traces. -/
structure Materializer.Descended (m : Materializer) (scope : Scope) (traces : Trace → Prop)
    (origin s : Store) (world : World) (names : List String) (d : Node)
    (result : Except Failure Node) (t : Store) : Prop where
  trodden : m.Trodden scope traces origin t
  grows : s.Grows m t
  agree : Agree (m.Recalls origin t) (Picture.walk (m.shows origin) m world names d) result
  bears : ∀ trace, Picture.Treads (m.shows origin) m world names d trace → m.Bears origin t trace

section Descending

variable {drawn : Node} {names : List String} {failure : Failure} {result : Except Failure Node}

theorem Materializer.descended_file (trodden : m.Trodden scope traces origin s)
    (isFile : d.isFolder = false) :
    m.Descended scope traces origin s world (name :: names) d
      (.error (.notADirectory d.path)) s := by
  refine ⟨trodden, .refl s, ?_, fun trace treads => ?_⟩
  · simp only [Picture.walk, isFile, Bool.not_false, if_true]
    rfl
  · cases treads with
    | opens isFolder => rw [isFile] at isFolder; cases isFolder
    | decides isFolder => rw [isFile] at isFolder; cases isFolder
    | onward isFolder => rw [isFile] at isFolder; cases isFolder

variable (trodden : m.Trodden scope traces origin t) (grows : s.Grows m t)
  (isFolder : d.isFolder = true) (opened : m.Bears origin t (.expanded d.path))

include trodden grows isFolder opened

theorem Materializer.descended_failed
    (failed : m.shows origin (Path.join d.path name) = .error failure) :
    m.Descended scope traces origin s world (name :: names) d (.error failure) t := by
  refine ⟨trodden, grows, ?_, Picture.Treads.all (fun _ => opened) fun child found => ?_⟩
  · simp only [Picture.walk, isFolder, failed, Bool.not_true, Bool.false_eq_true, if_false]
    rfl
  · rw [failed] at found
    cases found

theorem Materializer.descended_absent (shown : m.shows origin (Path.join d.path name) = .ok none) :
    m.Descended scope traces origin s world (name :: names) d
      (.error (.missing (Path.join d.path name))) t := by
  refine ⟨trodden, grows, ?_, Picture.Treads.all (fun _ => opened) fun child found => ?_⟩
  · simp only [Picture.walk, isFolder, shown, Bool.not_true, Bool.false_eq_true, if_false]
    rfl
  · rw [shown] at found
    cases found

variable (shown : m.shows origin (Path.join d.path name) = .ok (some drawn))
  (decided : ∀ decider, world = .named decider → m.Bears origin t (.decided drawn.path decider))

include shown decided

theorem Materializer.descended_unseen (unseen : m.sees drawn world ≠ .ok true)
    (fails : ((m.sees drawn world).bind fun visible =>
      if visible then Picture.walk (m.shows origin) m world names drawn
      else .error (.missing (Path.join d.path name))) = .error failure) :
    m.Descended scope traces origin s world (name :: names) d (.error failure) t := by
  refine ⟨trodden, grows, ?_, Picture.Treads.all (fun _ => opened) fun child found => ?_⟩
  · simp only [Picture.walk, isFolder, shown, Bool.not_true,
      Bool.false_eq_true, if_false, Except.bind]
    simp only [Except.bind] at fails
    rw [fails]
    rfl
  · rw [shown] at found
    cases found
    exact ⟨decided, fun seen => absurd seen unseen⟩

theorem Materializer.descended_onward {u : Store} (seen : m.sees drawn world = .ok true)
    (onward : m.Descended scope traces origin t world names drawn result u) :
    m.Descended scope traces origin s world (name :: names) d result u := by
  refine ⟨onward.trodden, grows.trans onward.grows, ?_,
    Picture.Treads.all (fun _ => opened.later trodden.regular onward.grows) fun child found => ?_⟩
  · simp only [Picture.walk, isFolder, shown, seen, Bool.not_true, Bool.false_eq_true, if_false,
      Except.bind, if_true]
    exact onward.agree
  · rw [shown] at found
    cases found
    exact ⟨fun decider decides => (decided decider decides).later trodden.regular onward.grows,
      fun _ => onward.bears⟩

end Descending

structure Materializer.Scanned (m : Materializer) (scope : Scope) (traces : Trace → Prop)
    (origin s : Store) (world : World) (d : Node)
    (result : Except Failure (List Node)) (t : Store) : Prop where
  trodden : m.Trodden scope traces origin t
  grows : s.Grows m t
  gathers : ∃ found, Picture.Gathers (m.shows origin) m d found ∧
    result = found.bind (m.visibles world)
  recalls : ∀ children, result = .ok children → ∀ k ∈ children, ∃ d', m.Recalls origin t d' k
  bears : ∀ trace, Picture.Scans (m.shows origin) world d trace → m.Bears origin t trace

theorem Materializer.scanned_failed {failure : Failure} (wf : origin.WellFormed scope m.parameters)
    (trodden : m.Trodden scope traces origin t) (grows : s.Grows m t)
    (normal : Path.IsNormal d.path)
    (unending : ∀ name, Path.IsName name →
      m.shows origin (Path.join d.path name) = .error failure) :
    m.Scanned scope traces origin s world d (.error failure) t := by
  refine ⟨trodden, grows, ⟨_, .unending unending, rfl⟩, (by rintro _ ⟨⟩), fun trace scans => ?_⟩
  cases scans with
  | opens =>
    intro d' shown drawn
    have named : Path.IsName "a" := by decide +kernel
    exact absurd (wf.undrawn normal named shown (unending "a" named)) drawn
  | decides named found =>
    rw [unending _ named] at found
    cases found

section Gathering

variable {children : List Node} (trodden : m.Trodden scope traces origin t)
  (normal : Path.IsNormal d.path)
  (inside : ∀ name, Path.IsName name → ∃ found, m.shows origin (Path.join d.path name) = .ok found ∧
    Option.Rel (Node.Traced m traces) found (t.record? (Path.join d.path name)))
  (members : ∀ n, n ∈ children ↔ t.Holds n ∧ n.parent = some d.path)

include trodden normal inside members

theorem Materializer.gathers_of_inside (sorted : Blueprint.Sorted children) :
    Picture.Gathers (m.shows origin) m d (.ok children) := by
  refine .children sorted (fun k member => ?_) fun name named => ?_
  · obtain ⟨stands, at_⟩ := (members k).mp member
    exact ((trodden.shaped stands).join at_).2.1
  · rw [trodden.regular.find?_children normal named members]
    obtain ⟨pictured, shown, rel⟩ := inside name named
    rw [shown]
    cases there : t.record? (Path.join d.path name) with
    | none =>
      rw [there] at rel
      cases rel
      exact .none
    | some k =>
      rw [there] at rel
      obtain ⟨traced⟩ := rel
      exact .some ⟨traced.like, trodden.clear k (trodden.holds there).1⟩

theorem Materializer.bears_of_inside {u : Store} (opened : m.Bears origin u (.expanded d.path))
    (decided : ∀ k ∈ children, ∀ decider, world = .named decider →
      m.Bears origin u (.decided k.path decider))
    (trace : Trace) (scans : Picture.Scans (m.shows origin) world d trace) :
    m.Bears origin u trace := by
  cases scans with
  | opens => exact opened
  | @decides name decider child named shown decides =>
    obtain ⟨pictured, shown', rel⟩ := inside name named
    rw [shown] at shown'
    cases shown'
    cases there : t.record? (Path.join d.path name) with
    | none =>
      rw [there] at rel
      cases rel
    | some k =>
      rw [there] at rel
      obtain ⟨traced⟩ := rel
      have member := (members k).mpr
        ⟨(trodden.holds there).1, trodden.regular.parent_join normal named there⟩
      rw [← traced.path]
      exact decided k member decider decides

end Gathering

section Looking

variable (wf : origin.WellFormed scope m.parameters) (within : m.worlds.Within scope)

include wf within

theorem looking_step {host : Node} {names : List String} (trodden : m.Trodden scope traces origin t)
    (grows : s.Grows m t) (isFolder : d.isFolder = true) (found : t.record? d.path = some host)
    (ready : host.generated = true) (named : Path.IsName name)
    (left : ∀ trace, Picture.Treads (m.shows origin) m world (name :: names) d trace → traces trace)
    (leads : ∀ u drawn child, m.Trodden scope traces origin u → m.Recalls origin u drawn child →
      (∀ trace, Picture.Treads (m.shows origin) m world names drawn trace → traces trace) →
      (m.descend world names child).Ends (Setting.looking m scope traces origin) [] u
        (m.Descended scope traces origin u world names drawn)) :
    (getOr (Path.join d.path name) (.missing (Path.join d.path name)) >>= fun child =>
      m.isVisible child world >>= fun visible => if visible then m.descend world names child
        else Attempt.tell .hidden >>= fun _ =>
          (throw (.missing (Path.join d.path name)) : Attempt Node)).Ends
      (Setting.looking m scope traces origin) [] t
      (m.Descended scope traces origin s world (name :: names) d) := by
  have opened : m.Bears origin t (.expanded d.path) := fun _ _ _ => ⟨host, found, ready⟩
  refine ends_bind (looking_getOr ?_ ?_)
  · rintro u child trodden' onward stands below
    obtain ⟨_, shown, rel⟩ := trodden.inside wf found ready trodden' onward.grows named
    rw [← below, stands] at rel
    obtain @⟨drawn, _, traced⟩ := rel
    have known : m.Recalls origin u drawn child :=
      ⟨below ▸ shown, traced.toGrown, trodden'.clear child stands, child, stands, .refl child⟩
    have decides : ∀ decider, world = .named decider → traces (.decided child.path decider) := by
      intro decider decides
      rw [traced.path]
      exact left _ (.decides isFolder shown decides)
    refine ends_bind ((looking_isVisible wf within trodden' known decides).mono ?_)
    rintro _ w ⟨rfl, latest, grows', decided⟩
    have opened := (opened.later trodden.regular onward.grows).later trodden'.regular grows'
    have grows := (grows.trans onward.grows).trans grows'
    rw [traced.path] at decided
    rw [traced.like.sees world]
    cases seen : m.sees drawn world with
    | error failure =>
      exact m.descended_unseen latest grows isFolder opened shown decided
        (by simp [seen]) (by rw [seen]; rfl)
    | ok visible =>
      cases visible with
      | false =>
        exact ends_bind
          (ends_tell (ends_throw (m.descended_unseen latest grows isFolder opened shown
          decided (by simp [seen]) (by rw [seen]; rfl))))
      | true =>
        refine (leads w drawn child latest (known.later grows') fun trace treads =>
          left trace (.onward isFolder shown seen treads)).mono fun result x onward => ?_
        exact m.descended_onward latest grows isFolder opened shown decided seen onward
  · intro u trodden' onward absent
    obtain ⟨_, shown, rel⟩ := trodden.inside wf found ready trodden' onward.grows named
    rw [absent] at rel
    cases rel
    exact m.descended_absent trodden' (grows.trans onward.grows) isFolder
      (opened.later trodden.regular onward.grows) shown

theorem looking_descend {names : List String} (valid : ∀ name ∈ names, Path.IsName name)
    (trodden : m.Trodden scope traces origin s) (recalls : m.Recalls origin s d n)
    (left : ∀ trace, Picture.Treads (m.shows origin) m world names d trace → traces trace) :
    (m.descend world names n).Ends (Setting.looking m scope traces origin) [] s
      (m.Descended scope traces origin s world names d) := by
  induction names generalizing s d n with
  | nil => exact ends_pure ⟨trodden, .refl s, recalls, fun trace treads => by cases treads⟩
  | cons name more ih =>
    obtain ⟨named, valid⟩ := List.forall_mem_cons.mp valid
    have same := recalls.grown.like.isFolder
    have place := recalls.grown.path
    unfold Materializer.descend
    refine ends_ite (fun isFile => ends_throw ?_) fun isFolder => ?_
    · rw [place]
      exact m.descended_file trodden (by simpa [same] using isFile)
    have isFolder : n.isFolder = true := by simpa using isFolder
    have isFolder' := same.symm.trans isFolder
    have opens := left _ (.opens isFolder')
    rw [← place] at opens
    obtain ⟨first, holds, grown⟩ := recalls.there
    have normal : Path.IsNormal d.path := place ▸ grown.path ▸ (trodden.shaped holds).normal
    refine ends_bind ((looking_expand wf within trodden opens recalls.there isFolder).mono ?_)
    rintro result t ⟨trodden', grows, expands⟩
    rw [place] at expands ⊢
    cases expands with
    | unending unending =>
      have failed := unending name named
      refine m.descended_failed trodden' grows isFolder' (fun d' shown drawn => ?_) failed
      exact absurd (wf.undrawn normal named shown failed) drawn
    | marked found ready =>
      exact looking_step wf within trodden' grows isFolder' found ready named left
        fun u drawn child trodden recalls left => ih valid trodden recalls left

theorem looking_resolve (normal : Path.IsNormal path)
    (trodden : m.Trodden scope traces origin s)
    (left : ∀ top, m.shows origin Path.root = .ok (some top) → ∀ trace,
      Picture.Treads (m.shows origin) m world (Path.components path) top trace → traces trace) :
    (m.resolve path world).Ends (Setting.looking m scope traces origin) [] s fun result t =>
      m.Trodden scope traces origin t ∧ s.Grows m t ∧
        Agree (m.Recalls origin t) (Picture.resolve (m.shows origin) m world path) result ∧
        ∀ top, m.shows origin Path.root = .ok (some top) → ∀ trace,
          Picture.Treads (m.shows origin) m world (Path.components path) top trace →
            m.Bears origin t trace := by
  obtain ⟨first, root⟩ := wf.root
  obtain ⟨top, found⟩ := trodden.kept _ first root
  obtain ⟨holds, place⟩ := trodden.holds found
  refine ends_bind (looking_getOr ?_ ?_)
  · intro t n trodden' onward stands at_
    obtain ⟨d, recalls⟩ := trodden'.recalls stands
    have shown : m.shows origin Path.root = .ok (some d) := at_ ▸ recalls.shown
    refine (looking_descend wf within normal.components.1 trodden' recalls (left d shown)).mono ?_
    rintro result u ⟨trodden'', grows, agree, bears⟩
    refine ⟨trodden'', onward.grows.trans grows, ?_, fun d' same => ?_⟩
    · rw [Picture.resolve, shown]
      exact agree
    · rw [shown] at same
      cases same
      exact bears
  · intro t trodden' onward absent
    obtain ⟨l, at_, _⟩ := onward.grows.record? holds
    rw [place, absent] at at_
    cases at_

theorem looking_visibleOf {children : List Node} (trodden : m.Trodden scope traces origin s)
    (recalls : ∀ n ∈ children, ∃ d, m.Recalls origin s d n)
    (left : ∀ n ∈ children, ∀ decider, world = .named decider → traces (.decided n.path decider)) :
    (m.visibleOf world children).Ends (Setting.looking m scope traces origin) [] s fun result t =>
      result = m.visibles world children ∧ m.Trodden scope traces origin t ∧ s.Grows m t ∧
        ∀ n ∈ children, ∀ decider, world = .named decider →
          m.Bears origin t (.decided n.path decider) := by
  induction children generalizing s with
  | nil => exact ends_pure ⟨rfl, trodden, .refl s, fun _ none => absurd none List.not_mem_nil⟩
  | cons n more ih =>
    obtain ⟨⟨d, first⟩, recalls⟩ := List.forall_mem_cons.mp recalls
    obtain ⟨mine, left⟩ := List.forall_mem_cons.mp left
    refine ends_bind ((looking_isVisible wf within trodden first mine).mono ?_)
    rintro _ t ⟨rfl, trodden', grows, decided⟩
    have recalls' : ∀ k ∈ more, ∃ d, m.Recalls origin t d k := fun k member =>
      (recalls k member).imp fun _ known => known.later grows
    rw [Materializer.visibles]
    cases seen : m.sees n world with
    | error failure =>
      refine ⟨rfl, trodden', grows, List.forall_mem_cons.mpr ⟨decided, fun k member => ?_⟩⟩
      rintro decider rfl
      obtain ⟨_, known⟩ := recalls' k member
      exact known.bears fun _ => Or.inl ⟨_, m.draws_unconfigured k.id (m.unconfigured_of_sees seen)⟩
    | ok visible =>
      refine ends_bind ((ih trodden' recalls' left).mono ?_)
      rintro _ u ⟨rfl, trodden'', grows', others⟩
      have all := List.forall_mem_cons.mpr ⟨fun decider decides =>
        (decided decider decides).later trodden'.regular grows', others⟩
      cases m.visibles world more with
      | error failure => exact ⟨rfl, trodden'', grows.trans grows', all⟩
      | ok shown => exact ends_pure ⟨rfl, trodden'', grows.trans grows', all⟩

theorem looking_gather {children : List Node} (trodden : m.Trodden scope traces origin t)
    (grows : s.Grows m t) (normal : Path.IsNormal d.path)
    (inside : ∀ name, Path.IsName name →
      ∃ found, m.shows origin (Path.join d.path name) = .ok found ∧
      Option.Rel (Node.Traced m traces) found (t.record? (Path.join d.path name)))
    (members : ∀ n, n ∈ children ↔ t.Holds n ∧ n.parent = some d.path)
    (sorted : Blueprint.Sorted children) (opened : m.Bears origin t (.expanded d.path))
    (left : ∀ trace, Picture.Scans (m.shows origin) world d trace → traces trace) :
    (m.visibleOf world children).Ends (Setting.looking m scope traces origin) [] t
      (m.Scanned scope traces origin s world d) := by
  have known : ∀ k ∈ children, ∃ d', m.Recalls origin t d' k := fun k member =>
    trodden.recalls ((members k).mp member).1
  refine (looking_visibleOf wf within trodden known fun k member decider decides => ?_).mono ?_
  · obtain ⟨stands, at_⟩ := (members k).mp member
    obtain ⟨_, named, joined⟩ := (trodden.shaped stands).join at_
    obtain ⟨d', known⟩ := known k member
    have shown := known.shown
    rw [joined] at shown
    rw [known.grown.path]
    exact left _ (.decides named shown decides)
  · rintro _ w ⟨rfl, latest, grows', decided⟩
    refine ⟨latest, grows.trans grows',
      ⟨_, m.gathers_of_inside trodden normal inside members sorted, rfl⟩,
      fun found visible k member => ?_, ?_⟩
    · obtain ⟨d', known⟩ := known k (Materializer.mem_of_visibles visible member)
      exact ⟨d', known.later grows'⟩
    · exact m.bears_of_inside trodden normal inside members
        (opened.later trodden.regular grows') decided

theorem looking_scan (trodden : m.Trodden scope traces origin s) (recalls : m.Recalls origin s d n)
    (isFolder : n.isFolder = true)
    (left : ∀ trace, Picture.Scans (m.shows origin) world d trace → traces trace) :
    (do
      m.expand n
      let children ← call (.listChildren n.path)
      m.visibleOf world children : Attempt (List Node)).Ends
        (Setting.looking m scope traces origin) [] s
      (m.Scanned scope traces origin s world d) := by
  have place := recalls.grown.path
  have opens := left _ .opens
  obtain ⟨first, holds, grown⟩ := recalls.there
  have normal : Path.IsNormal d.path := place ▸ grown.path ▸ (trodden.shaped holds).normal
  rw [← place] at opens
  refine ends_bind ((looking_expand wf within trodden opens recalls.there isFolder).mono ?_)
  rintro result t ⟨trodden', grows, expands⟩
  rw [place] at expands ⊢
  cases expands with
  | unending unending =>
    exact m.scanned_failed wf trodden' grows normal unending
  | marked found ready =>
    refine ends_bind (ends_call ?_)
    rintro u ⟨trodden'', onward⟩
    obtain ⟨children, listed, members, sorted⟩ := trodden''.regular.charted.listChildren d.path
    refine ⟨⟨.same, fun path put => absurd put List.not_mem_nil⟩, ?_⟩
    simp only [Store.perform, listed]
    exact looking_gather wf within trodden'' (grows.trans onward.grows) normal
      (fun name named => trodden'.inside wf found ready trodden'' onward.grows named) members sorted
      (Materializer.Bears.later (fun _ _ _ => ⟨_, found, ready⟩) trodden'.regular onward.grows) left

end Looking

theorem Engine.listChildren_eq_bind (e : Engine) (input : String) (world : World) :
    e.listChildren input world = (do
      let folder ← e.getNode input world
      if !folder.isFolder then throw (.notFound (.folder folder.path))
      else
        e.materializer.expand folder
        let children ← call (.listChildren folder.path)
        e.materializer.visibleOf world children) := by
  simp only [Engine.listChildren, Engine.getNode, Materializer.list, bind_assoc]

section Answering

variable (wf : origin.WellFormed scope e.materializer.parameters)
  (within : e.materializer.worlds.Within scope)

include wf within

theorem looking_getNode (trodden : e.materializer.Trodden scope traces origin s)
    (left : ∀ trace, Picture.Passes
      (e.materializer.shows origin) e input world trace → traces trace) :
    (e.getNode input world).Ends
      (Setting.looking e.materializer scope traces origin) [] s fun result t =>
      e.materializer.Trodden scope traces origin t ∧ s.Grows e.materializer t ∧
        Agree (e.materializer.Recalls origin t)
          (Picture.getNode (e.materializer.shows origin) e input world)
          result ∧
        ∀ trace, Picture.Passes (e.materializer.shows origin) e input world trace →
          e.materializer.Bears origin t trace := by
  refine Engine.ends_accept (fun failure refused => ?_) fun path accepted normal => ?_
  · refine ⟨trodden, .refl s, ?_, ?_⟩
    · rw [Picture.getNode, refused]
      rfl
    · rintro trace ⟨path, top, accepted, _⟩
      rw [refused] at accepted
      cases accepted
  · refine (looking_resolve wf within normal trodden fun top shown trace treads =>
      left trace ⟨path, top, accepted, shown, treads⟩).mono ?_
    rintro result t ⟨trodden', grows, agree, bears⟩
    refine ⟨trodden', grows, ?_, ?_⟩
    · rw [Picture.getNode, accepted]
      exact agree
    · rintro trace ⟨path', top, accepted', shown, treads⟩
      rw [accepted] at accepted'
      cases accepted'
      exact bears top shown trace treads

omit wf within in
theorem Picture.leaves_listChildren {input : String}
    (passed : ∀ trace, Picture.Passes (e.materializer.shows origin) e input world trace →
      e.materializer.Bears origin t trace)
    (scanned : ∀ folder, Picture.getNode (e.materializer.shows origin) e input world = .ok folder →
      folder.isFolder = true → ∀ trace, Picture.Scans
        (e.materializer.shows origin) world folder trace →
        e.materializer.Bears origin t trace)
    (trace : Trace)
    (leaves : Picture.Leaves (e.materializer.shows origin) e (.listChildren input world) trace) :
    e.materializer.Bears origin t trace := by
  rcases leaves with passes | ⟨folder, found, isFolder, scans⟩
  · exact passed trace passes
  · exact scanned folder found isFolder trace scans

theorem looking_listChildren (trodden : e.materializer.Trodden scope traces origin s)
    (left : ∀ trace, Picture.Leaves (e.materializer.shows origin) e
      (.listChildren input world) trace →
      traces trace) :
    (e.listChildren input world).Ends
      (Setting.looking e.materializer scope traces origin) [] s fun result t =>
      e.materializer.Trodden scope traces origin t ∧ s.Grows e.materializer t ∧
        Picture.Lists (e.materializer.shows origin) e input world result ∧
        (∀ children, result = .ok children →
          ∀ n ∈ children, ∃ d, e.materializer.Recalls origin t d n) ∧
        ∀ trace, Picture.Leaves (e.materializer.shows origin) e (.listChildren input world) trace →
          e.materializer.Bears origin t trace := by
  rw [e.listChildren_eq_bind]
  refine ends_bind ((looking_getNode wf within trodden fun trace passes =>
    left trace (Or.inl passes)).mono ?_)
  rintro result t ⟨trodden', grows, agree, passed⟩
  cases result with
  | error failure =>
    have failed := agree.eq_error
    refine ⟨trodden', grows, ?_, (by rintro _ ⟨⟩), Picture.leaves_listChildren passed ?_⟩
    · rw [Picture.Lists, failed]
    · intro folder found
      rw [failed] at found
      cases found
  | ok n =>
    obtain ⟨d, found, recalls⟩ := agree.of_ok
    have same := recalls.grown.like.isFolder
    refine ends_ite (fun isFile => ends_throw ⟨trodden', grows, ?_, (by rintro _ ⟨⟩),
      Picture.leaves_listChildren passed ?_⟩) fun isFolder => ?_
    · have isFile : d.isFolder = false := by simpa [same] using isFile
      rw [Picture.Lists, found]
      simp only [isFile, Bool.false_eq_true, if_false, recalls.grown.path]
    · intro folder found' isFolder
      rw [found] at found'
      cases found'
      simp [same, isFolder] at isFile
    · have isFolder : n.isFolder = true := by simpa using isFolder
      have isFolder' : d.isFolder = true := same.symm.trans isFolder
      refine (looking_scan wf within trodden' recalls isFolder fun trace scans =>
        left trace (Or.inr ⟨d, found, isFolder', scans⟩)).mono ?_
      rintro result u ⟨trodden'', grows', listed, tells, scanned⟩
      refine ⟨trodden'', grows.trans grows', ?_, tells, Picture.leaves_listChildren
        (fun trace passes => (passed trace passes).later trodden'.regular grows') ?_⟩
      · rw [Picture.Lists, found]
        simp only [isFolder', if_true]
        exact listed
      · intro folder found' _
        rw [found] at found'
        cases found'
        exact scanned

omit wf within in
theorem Operation.Reports.later {r : Operation} {result : Except Failure r.Answer}
    (reports : r.Reports e origin s result) (regular : s.Regular scope e.materializer.parameters)
    (grows : s.Grows e.materializer t) : r.Reports e origin t result :=
  ⟨reports.foretold, reports.faithful,
    fun trace leaves => (reports.bears trace leaves).later regular grows⟩

/-- Whatever other readers do meanwhile, an operation that looks at nodes answers as foretold, tells
of nodes as they were shown, and leaves its traces. -/
theorem looking_run {r : Operation} (looks : r.Looks)
    (trodden : e.materializer.Trodden scope traces origin s)
    (left : ∀ trace, Picture.Leaves (e.materializer.shows origin) e r trace → traces trace) :
    (r.run e).Ends (Setting.looking e.materializer scope traces origin) [] s fun result t =>
      e.materializer.Trodden scope traces origin t ∧ s.Grows e.materializer t ∧
        r.Reports e origin t result := by
  cases r with
  | getNode input world =>
    refine (looking_getNode wf within trodden left).mono ?_
    rintro result t ⟨trodden', grows, agree, bears⟩
    refine ⟨trodden', grows, ⟨agree.and fun d n _ recalls => recalls.standsFor, rfl⟩, ?_, bears⟩
    rintro n rfl k rfl
    obtain ⟨d, _, recalls⟩ := agree.of_ok
    exact ⟨d, recalls.shown, recalls.grown⟩
  | listChildren input world =>
    refine (looking_listChildren wf within trodden left).mono ?_
    rintro result t ⟨trodden', grows, lists, tells, bears⟩
    refine ⟨trodden', grows, ⟨lists, rfl⟩, fun children same n member => ?_, bears⟩
    obtain ⟨d, recalls⟩ := tells children same n member
    exact ⟨d, recalls.shown, recalls.grown⟩
  | _ => exact looks.elim

end Answering

end SeedTree
