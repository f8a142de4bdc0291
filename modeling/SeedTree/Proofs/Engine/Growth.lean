import SeedTree.Proofs.Blueprint
import SeedTree.Proofs.Engine.Picture
import SeedTree.Proofs.Engine.Rule

/- What a store becomes under readers at work side by side. Each leaves traces: folders that it
   expands, and decisions that it puts down. At every moment, also in the middle of expansions, the
   store is the one that they started on with what traces account for. Once all have been left,
   their order makes no difference. -/
namespace SeedTree

/-- What a reading leaves in a store. -/
inductive Trace where
  | expanded (folder : String)
  | decided (path world : String)

/-- A node and what it is later: decisions have been added, or its children have been generated. -/
structure Node.Grown (m : Materializer) (n k : Node) : Prop where
  like : n.Like m k
  checksum : k.checksum = n.checksum
  generated : n.generated = true → k.generated = true
  decided : ∀ (world : String) present, n.existence[world]? = some present →
    k.existence[world]? = some present

/-- A node as it is shown at first and its record later, which differs by what traces account
for. -/
structure Node.Traced (m : Materializer) (traces : Trace → Prop) (d k : Node) : Prop
    extends Node.Grown m d k where
  opened : k.generated = true →
    d.generated = true ∨ traces (.expanded d.path) ∧ m.specs? d ≠ none
  added : ∀ world : String, k.existence[world]? = d.existence[world]? ∨
    d.parent ≠ none ∧ traces (.decided d.path world)

def Store.Grows (m : Materializer) (s t : Store) : Prop :=
  ∀ n, s.Holds n → ∃ k, t.Holds k ∧ n.Grown m k

/-- A store that readers started on, and how they have left it so far. -/
structure Materializer.Trodden (m : Materializer) (scope : Scope) (traces : Trace → Prop)
    (origin s : Store) : Prop where
  regular : s.Regular scope m.parameters
  clear : s.Obeys Node.RootUndecided
  kept : ∀ path n, origin.record? path = some n → ∃ k, s.record? path = some k
  shown : ∀ k, s.Holds k → ∃ d, m.shows origin k.path = .ok (some d) ∧ d.Traced m traces k
  placed : ∀ k, s.Holds k → origin.record? k.path = none →
    ∃ folder, k.parent = some folder ∧ traces (.expanded folder)
  whole : ∀ k, s.Holds k → k.generated = true → ∀ name d, Path.IsName name →
    m.shows origin (Path.join k.path name) = .ok (some d) →
      ∃ c, s.record? (Path.join k.path name) = some c

/-- A trace that the original store allows for has been left. -/
def Materializer.Bears (m : Materializer) (origin s : Store) : Trace → Prop
  | .expanded folder => ∀ d, m.shows origin folder = .ok (some d) → m.specs? d ≠ none →
    ∃ k, s.record? folder = some k ∧ k.generated = true
  | .decided path world => ∀ d present, m.shows origin path = .ok (some d) → d.parent ≠ none →
    m.draws d.id world = .ok present → ∃ k, s.record? path = some k ∧ k.existence[world]? ≠ none

/-- Equal but for the time of writing. -/
def Node.Twins (n k : Node) : Prop := k = { n with updated := k.updated }

variable {m : Materializer} {scope : Scope} {traces : Trace → Prop} {origin s t u : Store}
  {n k l d : Node} {world : String} {present : Bool}

namespace Node.Grown

theorem refl (n : Node) : n.Grown m n := ⟨.refl n, rfl, fun ready => ready, fun _ _ found => found⟩

theorem trans (early : n.Grown m k) (late : k.Grown m l) : n.Grown m l where
  like := early.like.trans late.like
  checksum := late.checksum.trans early.checksum
  generated := fun ready => late.generated (early.generated ready)
  decided := fun world present found => late.decided _ _ (early.decided world present found)

theorem path (grown : n.Grown m k) : k.path = n.path := grown.like.place.path

theorem expanded (n : Node) : n.Grown m n.expanded where
  like := ⟨⟨rfl, rfl, rfl, rfl⟩, rfl, rfl, rfl, rfl, fun _ => rfl⟩
  checksum := rfl
  generated := fun _ => rfl
  decided := fun _ _ found => found

theorem fresh (grown : n.Grown m k) (fresh : k.generated = false) : n.generated = false := by
  cases ready : n.generated with
  | false => rfl
  | true =>
    rw [grown.generated ready] at fresh
    cases fresh

end Node.Grown

theorem Store.Change.decision_kept (below : n.parent ≠ none) (missing : n.existence[world]? = none)
    (drawn : m.draws n.id world = .ok present) (like : n.Like m k)
    (same : (Store.Change.decision world present).apply k = none) :
    k.existence[world]? = some present := by
  obtain ⟨decided, found⟩ := Store.Change.decision_declined same
  have below' : k.parent ≠ none := by rw [like.place.parent]; exact below
  have agreed := like.sees (.named world)
  rw [m.sees_decided below' found, m.sees_open below missing, drawn] at agreed
  rw [found, Except.ok.inj agreed]

theorem Node.Grown.decision (suits : (Store.Change.decision world present).Suits m scope n)
    (new : (Store.Change.decision world present).apply n = some k) : n.Grown m k := by
  have reads : (Deed.changed n.path (.decision world present)).Reads := trivial
  have like := (Store.Change.like suits new reads).1
  obtain ⟨missing, rfl⟩ := Store.Change.decision_cases new
  refine ⟨like, rfl, fun ready => ready, fun other decided found => ?_⟩
  rw [getElem?_insert_ite, if_neg, found]
  rintro rfl
  rw [missing] at found
  cases found

theorem Node.Proper.expanded {p : Parameters} (proper : n.Proper scope p) :
    n.expanded.Proper scope p :=
  ⟨{ proper.fits with }, { proper.shaped with }, fun _ fresh => by cases fresh⟩

namespace Node.Traced

theorem refl (n : Node) : n.Traced m traces n := ⟨.refl n, Or.inl, fun _ => Or.inl rfl⟩

theorem expanded (traced : d.Traced m traces n) (left : traces (.expanded n.path))
    (drawn : m.specs? n ≠ none) : d.Traced m traces n.expanded := by
  refine ⟨traced.toGrown.trans (.expanded n), fun _ => Or.inr ?_, traced.added⟩
  rw [← traced.path, ← Materializer.specs?_congr traced.like.place.path traced.like.depth]
  exact ⟨left, drawn⟩

theorem decision (traced : d.Traced m traces n)
    (suits : (Store.Change.decision world present).Suits m scope n)
    (new : (Store.Change.decision world present).apply n = some k)
    (left : traces (.decided n.path world)) : d.Traced m traces k := by
  have grown := Node.Grown.decision suits new
  obtain ⟨missing, rfl⟩ := Store.Change.decision_cases new
  refine ⟨traced.toGrown.trans grown, traced.opened, fun other => ?_⟩
  rw [getElem?_insert_ite]
  split
  · rename_i same
    rw [← traced.like.place.parent, ← traced.path, ← same]
    exact Or.inr ⟨suits.1, left⟩
  · exact traced.added other

theorem looked (traced : d.Traced m traces k) (ready : k.generated = true)
    (origin : Store) (name : String) : ∃ found, m.lookup origin d name = .ok found := by
  cases done : d.generated with
  | true => exact ⟨_, m.lookup_generated origin done name⟩
  | false =>
    rcases traced.opened ready with early | ⟨_, drawn⟩
    · rw [done] at early
      cases early
    · obtain ⟨specs, drawn⟩ := Option.ne_none_iff_exists'.mp drawn
      exact ⟨_, (m.lookup_fresh origin done name).trans (Materializer.promised_of_drawn drawn name)⟩

theorem drawn (traced : d.Traced m traces k) (missing : d.existence[world]? = none)
    (found : k.existence[world]? = some present) :
    d.parent ≠ none ∧ traces (.decided d.path world) ∧ m.draws d.id world = .ok present := by
  rcases traced.added world with same | ⟨below, left⟩
  · rw [found, missing] at same
    cases same
  · refine ⟨below, left, ?_⟩
    have below' : k.parent ≠ none := by rw [traced.like.place.parent]; exact below
    rw [← m.sees_open below missing, ← traced.like.sees, m.sees_decided below' found]

end Node.Traced

namespace Store.Grows

theorem refl (s : Store) : s.Grows m s := fun n holds => ⟨n, holds, .refl n⟩

theorem trans (early : s.Grows m t) (late : t.Grows m u) : s.Grows m u := by
  intro n holds
  obtain ⟨k, there, grown⟩ := early n holds
  obtain ⟨l, last, grown'⟩ := late k there
  exact ⟨l, last, grown.trans grown'⟩

theorem record? (grows : s.Grows m t) (holds : s.Holds n) :
    ∃ k, t.record? n.path = some k ∧ n.Grown m k := by
  obtain ⟨k, there, grown⟩ := grows n holds
  exact ⟨k, by rw [← grown.path]; exact there, grown⟩

end Store.Grows

namespace Materializer.Bears

variable {trace : Trace}

theorem later (bears : m.Bears origin s trace) (regular : s.Regular scope m.parameters)
    (grows : s.Grows m t) : m.Bears origin t trace := by
  cases trace with
  | expanded folder =>
    intro d shown drawn
    obtain ⟨k, found, ready⟩ := bears d shown drawn
    have place := (regular.sound.proper found).2
    obtain ⟨l, there, grown⟩ := grows.record? (regular.sound.holds found)
    exact ⟨l, place ▸ there, grown.generated ready⟩
  | decided path world =>
    intro d present shown below drawn
    obtain ⟨k, found, decided⟩ := bears d present shown below drawn
    have place := (regular.sound.proper found).2
    obtain ⟨l, there, grown⟩ := grows.record? (regular.sound.holds found)
    obtain ⟨answer, known⟩ := Option.ne_none_iff_exists'.mp decided
    exact ⟨l, place ▸ there, by rw [grown.decided world answer known]; exact Option.some_ne_none _⟩

end Materializer.Bears

theorem Store.WellFormed.undrawn (wf : s.WellFormed scope m.parameters) {path name : String}
    {failure : Failure} (normal : Path.IsNormal path) (named : Path.IsName name)
    (shown : m.shows s path = .ok (some n))
    (failed : m.shows s (Path.join path name) = .error failure) : m.specs? n = none := by
  rw [wf.shows_join normal named, shown] at failed
  simp only [Except.bind] at failed
  split at failed
  · cases ready : n.generated with
    | true =>
      rw [m.lookup_generated s ready] at failed
      cases failed
    | false =>
      cases drawn : m.specs? n with
      | none => rfl
      | some specs =>
        rw [m.lookup_fresh s ready, Materializer.promised_of_drawn drawn] at failed
        cases failed
  · cases failed

namespace Materializer.Trodden

theorem self (wf : s.WellFormed scope m.parameters) (clear : s.Obeys Node.RootUndecided) :
    m.Trodden scope traces s s where
  regular := wf.regular
  clear := clear
  kept := fun _ n found => ⟨n, found⟩
  shown := fun k holds => ⟨k, wf.shows_record (wf.shaped holds).normal holds, .refl k⟩
  placed := by
    intro k holds absent
    rw [holds] at absent
    cases absent
  whole := by
    intro k holds ready name d named shown
    have normal := (wf.shaped holds).normal
    rw [wf.shows_join normal named, wf.shows_record normal holds] at shown
    simp only [Except.bind] at shown
    split at shown
    · rw [m.lookup_generated s ready] at shown
      exact ⟨d, Except.ok.inj shown⟩
    · cases shown

variable (wf : origin.WellFormed scope m.parameters) (trodden : m.Trodden scope traces origin s)

include trodden

theorem holds {path : String} (found : s.record? path = some n) : s.Holds n ∧ n.path = path :=
  ⟨trodden.regular.sound.holds found, (trodden.regular.sound.proper found).2⟩

theorem shaped (holds : s.Holds n) : n.Shaped m.parameters.seed :=
  (trodden.regular.sound.proper holds).1.shaped

include wf

theorem promised (holds : s.Holds k) (isFolder : k.isFolder = true) (fresh : k.generated = false)
    {name : String} (named : Path.IsName name) :
    m.shows origin (Path.join k.path name) = m.promised k name := by
  obtain ⟨d, shown, traced⟩ := trodden.shown k holds
  rw [wf.shows_join (trodden.shaped holds).normal named, shown]
  simp only [Except.bind, ← traced.like.isFolder, isFolder, if_true]
  rw [m.lookup_fresh origin (traced.fresh fresh),
    m.promised_congr traced.like.place.path traced.like.depth]

theorem record (holds : s.Holds k) (ready : k.generated = true) {name : String}
    (named : Path.IsName name) : ∃ found, m.shows origin (Path.join k.path name) = .ok found ∧
      Option.Rel (Node.Traced m traces) found (s.record? (Path.join k.path name)) := by
  cases there : s.record? (Path.join k.path name) with
  | some c =>
    obtain ⟨stands, place⟩ := trodden.holds there
    obtain ⟨d, shown, traced⟩ := trodden.shown c stands
    exact ⟨some d, place ▸ shown, .some traced⟩
  | none =>
    have absent : ∀ d, m.shows origin (Path.join k.path name) ≠ .ok (some d) := by
      intro d shown
      obtain ⟨c, found⟩ := trodden.whole k holds ready name d named shown
      rw [there] at found
      cases found
    refine ⟨none, ?_, .none⟩
    obtain ⟨d, shown, traced⟩ := trodden.shown k holds
    rw [wf.shows_join (trodden.shaped holds).normal named, shown] at absent ⊢
    simp only [Except.bind] at absent ⊢
    split
    · rename_i isFolder
      rw [if_pos isFolder] at absent
      obtain ⟨found, same⟩ := traced.looked ready origin name
      rw [same] at absent ⊢
      cases found with
      | none => rfl
      | some d' => exact absurd rfl (absent d')
    · rfl

theorem inside {folder name : String} (found : s.record? folder = some k)
    (ready : k.generated = true)
    (later : m.Trodden scope traces origin t) (grows : s.Grows m t) (named : Path.IsName name) :
    ∃ found, m.shows origin (Path.join folder name) = .ok found ∧
      Option.Rel (Node.Traced m traces) found (t.record? (Path.join folder name)) := by
  obtain ⟨holds, place⟩ := trodden.holds found
  obtain ⟨l, there, grown⟩ := grows k holds
  have known := later.record wf there (grown.generated ready) named
  rw [grown.path, place] at known
  exact known

omit wf

theorem replaced (holds : s.Holds n) (proper : k.Proper scope m.parameters) (grown : n.Grown m k)
    (clear : k.RootUndecided)
    (traced : ∀ d, m.shows origin n.path = .ok (some d) → d.Traced m traces n → d.Traced m traces k)
    (whole : k.generated = true → ∀ name d, Path.IsName name →
      m.shows origin (Path.join n.path name) = .ok (some d) →
        ∃ c, s.record? (Path.join n.path name) = some c) :
    m.Trodden scope traces origin (s.replaced k) := by
  refine ⟨trodden.regular.replaced holds proper grown.like.place, ?_, ?_, ?_, ?_, ?_⟩
  · intro l stands
    rcases Store.holds_replaced proper stands with rfl | old
    · exact clear
    · exact trodden.clear l old
  · intro path l found
    obtain ⟨c, there⟩ := trodden.kept path l found
    exact Store.found_replaced proper there
  · intro l stands
    rcases Store.holds_replaced proper stands with rfl | old
    · obtain ⟨d, shown, known⟩ := trodden.shown n holds
      exact ⟨d, by rw [grown.path]; exact shown, traced d shown known⟩
    · exact trodden.shown l old
  · intro l stands absent
    rcases Store.holds_replaced proper stands with rfl | old
    · rw [grown.path] at absent
      rw [grown.like.place.parent]
      exact trodden.placed n holds absent
    · exact trodden.placed l old absent
  · intro l stands ready name d named shown
    rcases Store.holds_replaced proper stands with rfl | old
    · rw [grown.path] at shown ⊢
      obtain ⟨c, found⟩ := whole ready name d named shown
      exact Store.found_replaced proper found
    · obtain ⟨c, found⟩ := trodden.whole l old ready name d named shown
      exact Store.found_replaced proper found

variable {host : Node} {time : Moment} {specs : List ChildSpec} {spec : ChildSpec}

include wf

theorem opened (opens : m.Opens s host time specs) (left : traces (.expanded host.path))
    (present : ∀ spec ∈ specs, ∃ c, s.record? (Path.join host.path spec.name) = some c) :
    m.Trodden scope traces origin (s.replaced host.expanded) := by
  refine trodden.replaced opens.holds (trodden.regular.sound.proper opens.holds).1.expanded
    (.expanded host) (trodden.clear host opens.holds) (fun d _ traced => traced.expanded left ?_)
    fun _ name d named shown => ?_
  · rw [opens.drawn]
    exact Option.some_ne_none _
  · rw [trodden.promised wf opens.holds opens.isFolder opens.fresh named] at shown
    obtain ⟨specs', drawn, spec, member, rfl, rfl⟩ := Materializer.promised_some shown
    rw [opens.drawn] at drawn
    cases drawn
    exact present spec member

theorem put (within : m.worlds.Within scope) (opens : m.Opens s host time specs)
    (left : traces (.expanded host.path)) (member : spec ∈ specs)
    (absent : s.record? (Path.join host.path spec.name) = none) :
    m.Trodden scope traces origin (s.insertNode (m.generatedChild host time spec)) := by
  have proper : (m.generatedChild host time spec).Proper scope m.parameters :=
    Materializer.proper_generatedChild within (trodden.regular.sound.proper opens.holds).1
      opens.isFolder opens.fresh opens.drawn member opens.valid
  have holds := fun l => Store.holds_insertNode (m := l) proper absent
  have named := Children.generate?_isName opens.drawn member
  refine ⟨trodden.regular.insertNode proper absent, ?_, ?_, ?_, ?_, ?_⟩
  · intro l stands
    rcases (holds l).mp stands with rfl | old
    · intro top
      cases top
    · exact trodden.clear l old
  · intro path l found
    obtain ⟨c, there⟩ := trodden.kept path l found
    exact ⟨c, Store.record?_insertNode_of_some proper absent there⟩
  · intro l stands
    rcases (holds l).mp stands with rfl | old
    · refine ⟨m.generatedChild host Moment.epoch spec, ?_, ?_⟩
      · rw [Materializer.generatedChild_path,
          trodden.promised wf opens.holds opens.isFolder opens.fresh named,
          Materializer.promised_of_drawn opens.drawn,
          find?_of_distinct (Children.generate?_orderly opens.drawn).distinct member]
        rfl
      · refine ⟨⟨⟨⟨rfl, rfl, rfl, rfl⟩, rfl, rfl, rfl, rfl, fun _ => rfl⟩, rfl, fun ready => ready,
          fun _ _ found => found⟩, ?_, fun _ => Or.inl rfl⟩
        intro ready
        cases ready
    · exact trodden.shown l old
  · intro l stands missing
    rcases (holds l).mp stands with rfl | old
    · exact ⟨host.path, rfl, left⟩
    · exact trodden.placed l old missing
  · intro l stands ready name d named' shown
    rcases (holds l).mp stands with rfl | old
    · cases ready
    · obtain ⟨c, found⟩ := trodden.whole l old ready name d named' shown
      exact ⟨c, Store.record?_insertNode_of_some proper absent found⟩

end Materializer.Trodden

section Converging

variable (wf : origin.WellFormed scope m.parameters) (trodden : m.Trodden scope traces origin s)
  (trodden' : m.Trodden scope traces origin t)
  (bears : ∀ trace, traces trace → m.Bears origin t trace)

include bears

/-- What has grown in one record has grown in the other too, once all traces have been left
there. -/
theorem Node.Traced.keeps_up (traced : d.Traced m traces k) (traced' : d.Traced m traces l)
    (shown : m.shows origin d.path = .ok (some d)) (there : t.record? d.path = some l) :
    (k.generated = true → l.generated = true) ∧
      ∀ (world : String) present, k.existence[world]? = some present →
        l.existence[world]? = some present := by
  constructor
  · intro ready
    rcases traced.opened ready with early | ⟨left, drawn⟩
    · exact traced'.generated early
    · obtain ⟨host, found, open_⟩ := bears _ left d shown drawn
      rw [there] at found
      cases found
      exact open_
  · intro world present found
    cases early : d.existence[world]? with
    | some decided =>
      have known := traced.decided world decided early
      rw [found] at known
      cases known
      exact traced'.decided world present early
    | none =>
      obtain ⟨below, left, drawn⟩ := traced.drawn early found
      obtain ⟨host, found', decided⟩ := bears _ left d present shown below drawn
      rw [there] at found'
      cases found'
      obtain ⟨answer, known⟩ := Option.ne_none_iff_exists'.mp decided
      have drawn' := (traced'.drawn early known).2.2
      rw [drawn] at drawn'
      cases drawn'
      exact known

include wf trodden trodden'

theorem Materializer.Trodden.reaches {path : String} (found : s.record? path = some k) :
    ∃ l, t.record? path = some l := by
  obtain ⟨holds, rfl⟩ := trodden.holds found
  cases early : origin.record? k.path with
  | some n => exact trodden'.kept k.path n early
  | none =>
    obtain ⟨folder, below, left⟩ := trodden.placed k holds early
    obtain ⟨normal, named, place⟩ := (trodden.shaped holds).join below
    obtain ⟨d, shown, _⟩ := trodden.shown k holds
    rw [place] at early shown ⊢
    have inside := shown
    rw [wf.shows_join normal named] at inside
    obtain ⟨above, host, looked⟩ := of_bind_ok inside
    cases above with
    | none => cases looked
    | some above =>
      simp only at looked
      split at looked
      · have at_ := (wf.shown_settled normal host).1
        cases ready : above.generated with
        | true =>
          rw [m.lookup_generated origin ready, at_, early] at looked
          cases looked
        | false =>
          rw [m.lookup_fresh origin ready] at looked
          obtain ⟨specs, drawn, _⟩ := Materializer.promised_some looked
          have draws : m.specs? above ≠ none := by
            rw [drawn]
            exact Option.some_ne_none _
          obtain ⟨folder', there, open_⟩ := bears _ left above host draws
          obtain ⟨stands, rfl⟩ := trodden'.holds there
          exact trodden'.whole folder' stands open_ k.name d named shown
      · cases looked

/-- The order in which traces are left makes no difference in the end, but for times of writing. -/
theorem Materializer.Trodden.twins
    (bears' : ∀ trace, traces trace → m.Bears origin s trace) (path : String) :
    Option.Rel Node.Twins (s.record? path) (t.record? path) := by
  cases found : s.record? path with
  | none =>
    cases there : t.record? path with
    | none => exact .none
    | some l =>
      obtain ⟨k, present⟩ := trodden'.reaches wf trodden bears' there
      rw [found] at present
      cases present
  | some k =>
    obtain ⟨l, there⟩ := trodden.reaches wf trodden' bears found
    rw [there]
    obtain ⟨holds, rfl⟩ := trodden.holds found
    obtain ⟨holds', place⟩ := trodden'.holds there
    obtain ⟨d, shown, traced⟩ := trodden.shown k holds
    obtain ⟨d', shown', traced'⟩ := trodden'.shown l holds'
    rw [place, shown] at shown'
    cases shown'
    rw [traced.path] at shown found there
    obtain ⟨opened, decided⟩ := traced.keeps_up bears traced' shown there
    obtain ⟨opened', decided'⟩ := traced'.keeps_up bears' traced shown found
    refine .some ?_
    have like := traced.like.symm.trans traced'.like
    have generated : l.generated = k.generated := Bool.eq_iff_iff.mpr ⟨opened', opened⟩
    have existence : l.existence = k.existence := by
      refine Std.ExtTreeMap.ext_getElem? fun world => Option.ext fun present => ?_
      exact ⟨decided' world present, decided world present⟩
    have checksum := traced'.checksum.trans traced.checksum.symm
    obtain ⟨⟨path, name, parent, id⟩, depth, kind, size, upload, _⟩ := like
    cases k
    cases l
    simp only at path name parent id depth kind size upload generated existence checksum
    subst path name parent id depth kind size upload generated existence checksum
    rfl

end Converging

end SeedTree
