import SeedTree.Proofs.Engine.Looking

/- A free place in a folder that many want to make a folder at, while others read. Whatever is done
   meanwhile, everywhere else the store is what has been read of the first one, and at the place
   there is nothing or a folder that is never changed again. -/
namespace SeedTree

/-- A node and what it is later, when it has only been read: its children have been generated, if
they can be told, and decisions and a checksum have been put down. -/
structure Node.Ripens (m : Materializer) (n k : Node) : Prop where
  like : n.Like m k
  generated : n.generated = true → k.generated = true
  drawn : k.generated = true → n.generated = true ∨ m.specs? n ≠ none

def Store.Ripens (m : Materializer) (s t : Store) : Prop :=
  ∀ n, s.Holds n → ∃ k, t.Holds k ∧ n.Ripens m k

/-- A store at first, and the world and the place in a folder that a new folder is wanted in. -/
structure Contest where
  materializer : Materializer
  scope : Scope
  origin : Store
  world : World
  folder : String
  name : String

namespace Contest

def place (x : Contest) : String := Path.join x.folder x.name

/-- The world is one of the tree's, and the place is free and remains so when its folder is
expanded. -/
structure Open (x : Contest) : Prop where
  wellFormed : x.origin.WellFormed x.scope x.materializer.parameters
  within : x.materializer.worlds.Within x.scope
  offered : ∀ name, x.world = .named name → name ∈ x.materializer.worlds.entries
  normal : Path.IsNormal x.folder
  named : Path.IsName x.name
  free : x.materializer.shows x.origin x.place = .ok none

/-- A folder that the world shows. Nothing is left to be generated in it or to be decided about
it. -/
structure Founded (x : Contest) (k : Node) : Prop where
  isFolder : k.isFolder = true
  generated : k.generated = true
  visible : x.materializer.sees k x.world = .ok true
  decided : ∀ name, name ∈ x.materializer.worlds.entries → k.existence[name]? ≠ none

structure Sound (x : Contest) (s : Store) : Prop where
  regular : s.Regular x.scope x.materializer.parameters
  root : ∃ top, s.record? Path.root = some top
  shown : ∀ k, s.Holds k → k.path ≠ x.place →
    ∃ d, x.materializer.shows x.origin k.path = .ok (some d) ∧ d.Ripens x.materializer k
  whole : ∀ k, s.Holds k → k.path ≠ x.place → k.generated = true → ∀ name d, Path.IsName name →
    x.materializer.shows x.origin (Path.join k.path name) = .ok (some d) →
      ∃ c, s.record? (Path.join k.path name) = some c
  founded : ∀ k, s.record? x.place = some k → x.Founded k

structure Leads (x : Contest) (s t : Store) : Prop where
  sound : x.Sound t
  ripens : s.Ripens x.materializer t
  stays : ∀ k, s.record? x.place = some k → t.record? x.place = some k

structure Passes (x : Contest) (s t : Store) : Prop where
  sound : x.Sound t
  ripens : s.Ripens x.materializer t
  untouched : t.record? x.place = s.record? x.place

end Contest

variable {x : Contest} {m : Materializer} {s t u : Store} {n k l d : Node} {name : String}

namespace Node.Ripens

theorem refl (n : Node) : n.Ripens m n := ⟨.refl n, fun ready => ready, Or.inl⟩

theorem path (ripens : n.Ripens m k) : k.path = n.path := ripens.like.place.path

theorem trans (early : n.Ripens m k) (late : k.Ripens m l) : n.Ripens m l where
  like := early.like.trans late.like
  generated := fun ready => late.generated (early.generated ready)
  drawn := by
    intro ready
    rcases late.drawn ready with ready | drawn
    · exact early.drawn ready
    · rw [Materializer.specs?_congr early.like.place.path early.like.depth] at drawn
      exact Or.inr drawn

theorem expanded (drawn : m.specs? n ≠ none) : n.Ripens m n.expanded where
  like := (Node.Grown.expanded n).like
  generated := fun _ => rfl
  drawn := fun _ => Or.inr drawn

theorem of_like (like : n.Like m k) (same : k.generated = n.generated) : n.Ripens m k where
  like := like
  generated := same.trans
  drawn := fun ready => Or.inl (same.symm.trans ready)

theorem checksum {text : String} {computedFor : Option Digest}
    (new : (Store.Change.checksum text computedFor).apply n = some k) : n.Ripens m k := by
  simp only [Store.Change.apply] at new
  split at new
  · cases new
  · cases new
    exact .of_like ⟨⟨rfl, rfl, rfl, rfl⟩, rfl, rfl, rfl, rfl, fun _ => rfl⟩ rfl

end Node.Ripens

namespace Store.Ripens

theorem refl (s : Store) : s.Ripens m s := fun n holds => ⟨n, holds, .refl n⟩

theorem trans (early : s.Ripens m t) (late : t.Ripens m u) : s.Ripens m u := by
  intro n holds
  obtain ⟨k, there, ripens⟩ := early n holds
  obtain ⟨l, last, ripens'⟩ := late k there
  exact ⟨l, last, ripens.trans ripens'⟩

end Store.Ripens

namespace Contest

theorem Leads.trans (early : x.Leads s t) (late : x.Leads t u) : x.Leads s u where
  sound := late.sound
  ripens := early.ripens.trans late.ripens
  stays := fun k there => late.stays k (early.stays k there)

theorem Passes.leads (passes : x.Passes s t) : x.Leads s t :=
  ⟨passes.sound, passes.ripens, fun _ there => passes.untouched.trans there⟩

theorem Leads.record? (leads : x.Leads s t) (sound : x.Sound s) {path : String}
    (found : s.record? path = some n) : ∃ k, t.record? path = some k := by
  obtain ⟨k, there, ripens⟩ := leads.ripens n (sound.regular.sound.holds found)
  refine ⟨k, ?_⟩
  rw [← (sound.regular.sound.proper found).2, ← ripens.path]
  exact there

section Opening

variable (fair : x.Open)

include fair

theorem Open.sound : x.Sound x.origin where
  regular := fair.wellFormed.regular
  root := fair.wellFormed.root
  shown := fun k holds _ =>
    ⟨k, fair.wellFormed.shows_record (fair.wellFormed.shaped holds).normal holds, .refl k⟩
  whole := by
    intro k holds _ ready name d named shown
    have normal := (fair.wellFormed.shaped holds).normal
    rw [fair.wellFormed.shows_join normal named, fair.wellFormed.shows_record normal holds] at shown
    simp only [Except.bind] at shown
    split at shown
    · rw [x.materializer.lookup_generated x.origin ready] at shown
      exact ⟨d, Except.ok.inj shown⟩
    · cases shown
  founded := by
    intro k found
    obtain ⟨holds, place⟩ := fair.wellFormed.holds found
    have normal := (fair.wellFormed.shaped holds).normal
    have shown := fair.wellFormed.shows_record normal holds
    rw [place, fair.free] at shown
    cases shown

end Opening

namespace Sound

variable (sound : x.Sound s)

include sound

theorem passes : x.Passes s s := ⟨sound, .refl s, rfl⟩

theorem holds {path : String} (found : s.record? path = some n) : s.Holds n ∧ n.path = path :=
  ⟨sound.regular.sound.holds found, (sound.regular.sound.proper found).2⟩

theorem normal (holds : s.Holds n) : Path.IsNormal n.path :=
  (sound.regular.sound.proper holds).1.shaped.normal

theorem has {path : String} (found : s.record? path = some n) (elsewhere : path ≠ x.place)
    (ready : n.generated = true) (named : Path.IsName name)
    (shown : x.materializer.shows x.origin (Path.join path name) = .ok (some d)) :
    ∃ k, s.record? (Path.join path name) = some k := by
  obtain ⟨holds, rfl⟩ := sound.holds found
  exact sound.whole n holds elsewhere ready name d named shown

theorem replaced (holds : s.Holds n) (elsewhere : n.path ≠ x.place)
    (proper : k.Proper x.scope x.materializer.parameters) (ripens : n.Ripens x.materializer k)
    (whole : k.generated = true → ∀ name d, Path.IsName name →
      x.materializer.shows x.origin (Path.join n.path name) = .ok (some d) →
        ∃ c, s.record? (Path.join n.path name) = some c) : x.Passes s (s.replaced k) := by
  have apart : x.place ≠ k.path := by
    rw [ripens.path]
    exact elsewhere.symm
  have same : (s.replaced k).record? x.place = s.record? x.place := by
    rw [Store.record?_replaced proper, if_neg apart]
  refine ⟨⟨sound.regular.replaced holds proper ripens.like.place, ?_, ?_, ?_, ?_⟩, ?_, same⟩
  · obtain ⟨top, found⟩ := sound.root
    exact Store.found_replaced proper found
  · intro l stands elsewhere'
    rcases Store.holds_replaced proper stands with rfl | old
    · obtain ⟨d, shown, early⟩ := sound.shown n holds elsewhere
      exact ⟨d, by rw [ripens.path]; exact shown, early.trans ripens⟩
    · exact sound.shown l old elsewhere'
  · intro l stands elsewhere' ready name d named shown
    rcases Store.holds_replaced proper stands with rfl | old
    · rw [ripens.path] at shown ⊢
      obtain ⟨c, found⟩ := whole ready name d named shown
      exact Store.found_replaced proper found
    · obtain ⟨c, found⟩ := sound.whole l old elsewhere' ready name d named shown
      exact Store.found_replaced proper found
  · exact fun l found => sound.founded l (same ▸ found)
  · intro l early
    by_cases here : l.path = n.path
    · have equal : l = n := Store.Holds.unique early (by rw [here]; exact holds)
      exact ⟨k, (Store.record?_replaced proper k.path).trans (if_pos rfl), equal ▸ ripens⟩
    · refine ⟨l, ?_, .refl l⟩
      rw [Store.Holds, Store.record?_replaced proper, if_neg, early]
      rw [ripens.path]
      exact here

theorem inserted (proper : k.Proper x.scope x.materializer.parameters)
    (absent : s.record? k.path = none) (elsewhere : k.path ≠ x.place → k.generated = false ∧
      ∃ d, x.materializer.shows x.origin k.path = .ok (some d) ∧ d.Ripens x.materializer k)
    (here : k.path = x.place → x.Founded k) : x.Leads s (s.insertNode k) := by
  have holds := fun l => Store.holds_insertNode (m := l) proper absent
  refine ⟨⟨sound.regular.insertNode proper absent, ?_, ?_, ?_, ?_⟩, ?_, fun _ found =>
    Store.record?_insertNode_of_some proper absent found⟩
  · obtain ⟨top, found⟩ := sound.root
    exact ⟨top, Store.record?_insertNode_of_some proper absent found⟩
  · intro l stands apart
    rcases (holds l).mp stands with rfl | old
    · exact (elsewhere apart).2
    · exact sound.shown l old apart
  · intro l stands apart ready name d named shown
    rcases (holds l).mp stands with rfl | old
    · rw [(elsewhere apart).1] at ready
      cases ready
    · obtain ⟨c, found⟩ := sound.whole l old apart ready name d named shown
      exact ⟨c, Store.record?_insertNode_of_some proper absent found⟩
  · intro l found
    rw [Store.record?_insertNode proper] at found
    split at found
    · rename_i same
      cases found
      exact here same.symm
    · exact sound.founded l found
  · exact fun l early => ⟨l, (holds l).mpr (Or.inr early), .refl l⟩

theorem founds (proper : k.Proper x.scope x.materializer.parameters)
    (absent : s.record? x.place = none)
    (here : k.path = x.place) (founded : x.Founded k) : x.Leads s (s.insertNode k) :=
  sound.inserted proper (here ▸ absent) (fun elsewhere => absurd here elsewhere) fun _ => founded

theorem sums {text : String} {computedFor : Option Digest} (holds : s.Holds n)
    (elsewhere : n.path ≠ x.place)
    (short : IsShort text) (new : (Store.Change.checksum text computedFor).apply n = some k) :
    x.Passes s (s.replaced k) := by
  have fits : (Store.Change.checksum text computedFor).Fits x.scope := short
  have same : k.generated = n.generated := by
    simp only [Store.Change.apply] at new
    split at new <;> cases new
    rfl
  have ripens := Node.Ripens.checksum (m := x.materializer) new
  refine sound.replaced holds elsewhere
    (fits.proper new (sound.regular.sound.proper holds).1) ripens ?_
  rw [same]
  exact fun ready => sound.whole n holds elsewhere ready

theorem decides {world : String} {present : Bool} (within : x.materializer.worlds.Within x.scope)
    (holds : s.Holds n) (elsewhere : n.path ≠ x.place)
    (suits : (Store.Change.decision world present).Suits x.materializer x.scope n)
    (new : (Store.Change.decision world present).apply n = some k) : x.Passes s (s.replaced k) := by
  have same : k.generated = n.generated := by
    rw [(Store.Change.decision_cases new).2]
  have ripens := Node.Ripens.of_like (Node.Grown.decision suits new).like same
  have proper := (suits.fits within).proper new (sound.regular.sound.proper holds).1
  refine sound.replaced holds elsewhere proper ripens ?_
  rw [same]
  exact fun ready => sound.whole n holds elsewhere ready

end Sound

structure Unfolds (x : Contest) (n : Node) (specs : List ChildSpec) : Prop where
  proper : n.Proper x.scope x.materializer.parameters
  isFolder : n.isFolder = true
  fresh : n.generated = false
  drawn : x.materializer.specs? n = some specs
  promised : ∀ name, Path.IsName name →
    x.materializer.shows x.origin (Path.join n.path name) = x.materializer.promised n name

section Unfolding

variable {time : Moment} {specs : List ChildSpec} {spec : ChildSpec} (fair : x.Open)

include fair

theorem Open.elsewhere {path : String} (shown : x.materializer.shows x.origin path = .ok (some d)) :
    path ≠ x.place := by
  rintro rfl
  rw [fair.free] at shown
  cases shown

theorem Sound.promised (sound : x.Sound s) (holds : s.Holds n) (elsewhere : n.path ≠ x.place)
    (isFolder : n.isFolder = true) (fresh : n.generated = false) (named : Path.IsName name) :
    x.materializer.shows x.origin (Path.join n.path name) = x.materializer.promised n name := by
  obtain ⟨d, shown, ripens⟩ := sound.shown n holds elsewhere
  have fresh' : d.generated = false := by
    cases ready : d.generated with
    | false => rfl
    | true =>
      rw [ripens.generated ready] at fresh
      cases fresh
  rw [fair.wellFormed.shows_join (sound.normal holds) named, shown]
  simp only [Except.bind, ← ripens.like.isFolder, isFolder, if_true]
  rw [x.materializer.lookup_fresh x.origin fresh',
    x.materializer.promised_congr ripens.like.place.path ripens.like.depth]

variable (sound : x.Sound s) (unfolds : x.Unfolds n specs)

include unfolds

theorem Unfolds.child (valid : time.isValid = true) (member : spec ∈ specs) :
    (x.materializer.generatedChild n time spec).Proper x.scope x.materializer.parameters ∧
      x.materializer.shows x.origin (Path.join n.path spec.name)
        = .ok (some (x.materializer.generatedChild n Moment.epoch spec)) := by
  refine ⟨Materializer.proper_generatedChild fair.within unfolds.proper
    unfolds.isFolder unfolds.fresh
    unfolds.drawn member valid, ?_⟩
  rw [unfolds.promised _ (Children.generate?_isName unfolds.drawn member),
    Materializer.promised_of_drawn unfolds.drawn,
    find?_of_distinct (Children.generate?_orderly unfolds.drawn).distinct member]
  rfl

include sound

theorem Unfolds.put (valid : time.isValid = true) (member : spec ∈ specs)
    (absent : s.record? (Path.join n.path spec.name) = none) :
    x.Passes s (s.insertNode (x.materializer.generatedChild n time spec)) := by
  obtain ⟨proper, shown⟩ := unfolds.child fair valid member
  have apart : (x.materializer.generatedChild n time spec).path ≠ x.place := fair.elsewhere shown
  have leads := sound.inserted proper absent
    (fun _ =>
      ⟨rfl, _, shown, .of_like ⟨⟨rfl, rfl, rfl, rfl⟩, rfl, rfl, rfl, rfl, fun _ => rfl⟩ rfl⟩)
    fun here => absurd here apart
  exact ⟨leads.sound, leads.ripens, by rw [Store.record?_insertNode proper, if_neg apart.symm]⟩

omit fair in
theorem Unfolds.mark (holds : s.Holds k) (place : k.path = n.path) (elsewhere : n.path ≠ x.place)
    (full : ∀ spec ∈ specs, ∃ c, s.record? (Path.join n.path spec.name) = some c) :
    x.Passes s (s.replaced k.expanded) := by
  have proper := (sound.regular.sound.proper holds).1
  have depth : k.depth = n.depth := by
    rw [proper.shaped.depth, place, unfolds.proper.shaped.depth]
  have drawn := (Materializer.specs?_congr place depth).trans unfolds.drawn
  refine sound.replaced holds (place ▸ elsewhere) proper.expanded
    (.expanded (by rw [drawn]; exact Option.some_ne_none _)) fun _ name c named shown => ?_
  rw [place] at shown ⊢
  rw [unfolds.promised name named] at shown
  obtain ⟨specs', drawn', spec, member, rfl, rfl⟩ := Materializer.promised_some shown
  rw [unfolds.drawn] at drawn'
  cases drawn'
  exact full spec member

end Unfolding

end Contest

end SeedTree
