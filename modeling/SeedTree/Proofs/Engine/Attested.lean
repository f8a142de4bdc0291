import SeedTree.Proofs.Engine.PairedWalks
import SeedTree.Proofs.Frame
import SeedTree.Proofs.Lifetime

/- Paths that are attested in a world: every node on the way is on record, with a decision that the
   world shows it. A walk that arrives attests its path, a walk along an attested path finds the
   store as it leaves it, and a path stays attested as long as its node is on record. -/
namespace SeedTree

open Attempt
open SeedTree.Path (Within)

variable {m : Materializer} {scope : Scope} {s t : Store} {n k here : Node}
  {held : List String} {world : World} {path folder name : String}

def Store.Attests (s : Store) (world : World) (path : String) : Prop :=
  ∀ above, Path.IsNormal above → Within above path →
    ∃ n, s.record? above = some n ∧ n.decision? world = some true

def Deed.Lasts : Deed → Prop
  | .removed _ => False
  | _ => True

def Deed.Decides : Deed → Prop
  | .changed _ (.decision _ _) => True
  | _ => False

theorem Deed.lasts_of_walks (deed : Deed) (walks : deed.Walks) : deed.Lasts := by
  cases deed <;> first | exact walks | trivial

theorem Deed.walks_of_decides (deed : Deed) (decides : deed.Decides) : deed.Walks := by
  cases deed with
  | changed path change => cases change <;> exact decides
  | _ => exact decides.elim

/-- A node and what it is later: decisions have been added, and nothing else is different. -/
structure Node.Backfills (n k : Node) : Prop where
  same : k = { n with existence := k.existence }
  kept : ∀ (world : String) present, n.existence[world]? = some present →
    k.existence[world]? = some present

namespace Node.Backfills

theorem refl (n : Node) : n.Backfills n := ⟨rfl, fun _ _ found => found⟩

theorem trans {l : Node} (early : n.Backfills k) (late : k.Backfills l) : n.Backfills l := by
  refine ⟨?_, fun world present found => late.kept world present (early.kept world present found)⟩
  rw [late.same, early.same]

theorem keeps (backfills : n.Backfills k) : Store.Change.Keeps n k := by
  rw [backfills.same]
  exact ⟨⟨rfl, rfl, rfl, rfl⟩, rfl, rfl, rfl, fun ready => ready⟩

theorem place (backfills : n.Backfills k) : n.SamePlace k := backfills.keeps.place

theorem decision (backfills : n.Backfills k) {decided : Bool}
    (known : n.decision? world = some decided) : k.decision? world = some decided := by
  cases world with
  | primary => exact known
  | named name =>
    have top : k.isRoot = n.isRoot := by rw [Node.isRoot, Node.isRoot, backfills.place.parent]
    simp only [Node.decision?, top] at known ⊢
    split
    · rename_i isRoot
      rw [if_pos isRoot] at known
      exact known
    · rename_i inner
      rw [if_neg inner] at known
      exact backfills.kept name decided known

theorem decided {world : String} {present : Bool}
    (new : (Store.Change.decision world present).apply n = some k) : n.Backfills k := by
  obtain ⟨missing, rfl⟩ := Store.Change.decision_cases new
  refine ⟨rfl, fun other decided found => ?_⟩
  rw [getElem?_insert_ite, if_neg, found]
  rintro rfl
  rw [missing] at found
  cases found

end Node.Backfills

theorem Node.Becomes.decision {replaced summed : Prop} {shown : String → Prop}
    (becomes : n.Becomes replaced summed shown k) (decided : n.decision? world = some true) :
    k.decision? world = some true := by
  cases world with
  | primary => rfl
  | named name =>
    have top : k.isRoot = n.isRoot := by rw [Node.isRoot, Node.isRoot, becomes.keeps.place.parent]
    simp only [Node.decision?, top] at decided ⊢
    split
    · rfl
    · rename_i inner
      rw [if_neg inner] at decided
      exact becomes.visible name decided

section Records

variable (wf : s.WellFormed scope m.parameters)

include wf

theorem Store.WellFormed.record_above (normal : Path.IsNormal path)
    (found : s.record? path = some n) {above : String}
    (normal' : Path.IsNormal above) (inside : Within above path) :
    (∃ k, s.record? above = some k) ∧ (above ≠ path → s.HoldsOpen above) := by
  induction normal using Path.IsNormal.induct generalizing n with
  | top =>
    by_cases same : above = Path.root
    · exact ⟨⟨n, by rw [same, found]⟩, fun apart => absurd same apart⟩
    · exact absurd inside (Path.not_within_root normal' same)
  | below folder name normal named ih =>
    have host := wf.parented n folder (wf.holds found).1 (wf.parent_join normal named found)
    rcases (Path.within_join_iff normal' normal named).mp inside with higher | same
    · obtain ⟨k, there, whole⟩ := host
      obtain ⟨record, opened⟩ := ih there higher
      refine ⟨record, fun _ => ?_⟩
      by_cases same : above = folder
      · rw [same]
        exact ⟨k, there, whole⟩
      · exact opened same
    · exact ⟨⟨n, by rw [← same, found]⟩, fun apart => absurd same.symm apart⟩

theorem Store.WellFormed.attests_root (world : World) : s.Attests world Path.root := by
  intro above normal inside
  have same : above = Path.root := by
    by_contra inner
    exact Path.not_within_root normal inner inside
  obtain ⟨top, root⟩ := wf.root
  obtain ⟨holds, place⟩ := wf.holds root
  have isRoot : top.isRoot = true := by
    rw [Node.isRoot, (wf.shaped holds).parent_eq_none_iff.mpr place]
    rfl
  refine ⟨top, by rw [same, root], ?_⟩
  cases world with
  | primary => rfl
  | named name => simp only [Node.decision?, isRoot, if_true]

theorem Store.WellFormed.attests_primary (normal : Path.IsNormal path)
    (found : s.record? path = some n) : s.Attests .primary path := by
  intro above normal' inside
  obtain ⟨⟨k, there⟩, _⟩ := wf.record_above normal found normal' inside
  exact ⟨k, there, rfl⟩

end Records

theorem Store.attests_join (normal : Path.IsNormal folder) (named : Path.IsName name) :
    s.Attests world (Path.join folder name) ↔ s.Attests world folder ∧
      ∃ n, s.record? (Path.join folder name) = some n ∧ n.decision? world = some true := by
  have inside := fun {above} (normal' : Path.IsNormal above) =>
    Path.within_join_iff normal' normal named
  constructor
  · intro attests
    refine ⟨fun above normal' higher => attests above normal'
      ((inside normal').mpr (Or.inl higher)), ?_⟩
    exact attests _ (Path.isNormal_join normal named) (Path.within_refl _)
  · rintro ⟨attests, here⟩ above normal' within
    rcases (inside normal').mp within with higher | same
    · exact attests above normal' higher
    · rw [← same]
      exact here

namespace Store.Attests

theorem within (attests : s.Attests world path) {above : String} (inside : Within above path) :
    s.Attests world above :=
  fun top normal higher => attests top normal (higher.trans inside)

theorem record (attests : s.Attests world path) (normal : Path.IsNormal path) :
    ∃ n, s.record? path = some n ∧ n.decision? world = some true :=
  attests path normal (Path.within_refl path)

end Store.Attests

section Moving

variable (within : m.worlds.Within scope) (wf : s.WellFormed scope m.parameters)

include within wf

/-- Where nothing is removed, every record stays, and what shows it in a world stays with it. -/
theorem Moves.lasting (moves : Moves m scope Deed.Lasts s t) (holds : s.Holds n) :
    ∃ k, t.record? n.path = some k ∧ n.Becomes True True (fun _ => True) k := by
  induction moves generalizing n with
  | none s => exact ⟨n, holds, .refl n⟩
  | @more deed s u t permitted move rest ih =>
    have stays : deed ≠ .removed n.path := by
      rintro rfl
      exact permitted
    obtain ⟨k, found, first⟩ : ∃ k, u.record? n.path = some k ∧
      n.Becomes True True (fun _ => True) k :=
      move.becomes within wf holds stays (fun _ _ _ => trivial)
        (fun _ _ _ => trivial) fun _ _ _ => trivial
    have later := move.wellFormed within wf
    obtain ⟨l, found', next⟩ := ih later (later.holds found).1
    rw [first.keeps.place.path] at found'
    exact ⟨l, found', first.trans next⟩

theorem Store.Attests.moves (attests : s.Attests world path)
    (moves : Moves m scope Deed.Lasts s t) : t.Attests world path := by
  intro above normal inside
  obtain ⟨n, found, decided⟩ := attests above normal inside
  obtain ⟨holds, place⟩ := wf.holds found
  obtain ⟨k, found', becomes⟩ := moves.lasting within wf holds
  exact ⟨k, by rw [← place, found'], becomes.decision decided⟩

theorem Store.Attests.walks (attests : s.Attests world path)
    (moves : Moves m scope Deed.Walks s t) :
    t.Attests world path := attests.moves within wf (moves.mono Deed.lasts_of_walks)

end Moving

section Following

variable (wf : s.WellFormed scope m.parameters)

include wf

theorem ends_descend_attested {names more : List String} {post : Except Failure Node → Store → Prop}
    (normal : Path.IsNormal here.path)
    (valid : ∀ name ∈ names, Path.IsName name) (holds : s.Holds here)
    (attests : s.Attests world (names.foldl Path.join here.path))
    (leads : ∀ n, s.Holds n → n.path = names.foldl Path.join here.path →
      (m.descend world more n).Ends (Setting.alone scope m.parameters) held s post) :
    (m.descend world (names ++ more) here).Ends (Setting.alone scope m.parameters) held s post := by
  induction names generalizing here with
  | nil => exact leads here holds rfl
  | cons name names ih =>
    obtain ⟨named, valid⟩ := List.forall_mem_cons.mp valid
    have normal' := Path.isNormal_join normal named
    obtain ⟨child, found, decided⟩ := attests _ normal' (Path.within_foldl normal' valid)
    obtain ⟨stands, place⟩ := wf.holds found
    obtain ⟨host, there, isFolder, ready⟩ :=
      wf.parented child _ stands (wf.parent_join normal named found)
    cases Store.Holds.unique holds there
    rw [List.cons_append]
    unfold Materializer.descend Materializer.expand
    simp only [isFolder, ready, Bool.not_true, Bool.false_eq_true, if_false, if_true]
    refine ends_bind (ends_pure ?_)
    refine ends_bind (alone_getOr wf.regular ?_ ?_)
    · intro k found'
      cases Store.Holds.unique found found'
      simp only [then_ok, m.isVisible_decided decided]
      refine ends_bind (ends_pure ?_)
      simp only [then_ok, if_true]
      rw [← place] at normal'
      refine ih normal' valid stands (by rw [place]; exact attests) fun n holds' path => ?_
      exact leads n holds' (by rw [path, place]; rfl)
    · intro absent
      rw [found] at absent
      cases absent

theorem ends_resolve_along (normal : Path.IsNormal folder)
    (attests : s.Attests world folder) (more : List String)
    {post : Except Failure Node → Store → Prop}
    (leads : ∀ n, s.Holds n → n.path = folder →
      (m.descend world more n).Ends (Setting.alone scope m.parameters) held s post)
    (along : Path.components path = Path.components folder ++ more) :
    (m.resolve path world).Ends (Setting.alone scope m.parameters) held s post := by
  obtain ⟨top, root⟩ := wf.root
  obtain ⟨holds, place⟩ := wf.holds root
  have whole : (Path.components folder).foldl Path.join top.path = folder := by
    rw [place, normal.foldl_join]
  refine ends_bind (alone_getOr wf.regular ?_ ?_)
  · intro k found
    cases Store.Holds.unique root found
    rw [then_ok, along]
    refine ends_descend_attested wf (wf.shaped holds).normal normal.components.1 holds
      (by rw [whole]; exact attests) fun n stands here => ?_
    exact leads n stands (here.trans whole)
  · intro absent
    rw [root] at absent
    cases absent

theorem ends_resolve_attested (normal : Path.IsNormal path) (attests : s.Attests world path) :
    (m.resolve path world).Ends (Setting.alone scope m.parameters) held s fun result t =>
      t = s ∧ ∃ n, result = .ok n ∧ s.record? path = some n := by
  refine ends_resolve_along wf normal attests [] ?_ (List.append_nil _).symm
  intro n stands place
  exact ends_pure ⟨rfl, n, rfl, by rw [← place, stands]⟩

theorem ends_resolve_settled (normal : Path.IsNormal folder) (named : Path.IsName name)
    (attests : s.Attests world folder) (above : s.HoldsOpen folder)
    (settled : ∀ k, s.record? (Path.join folder name) = some k → k.decision? world ≠ none) :
    (m.resolve (Path.join folder name) world).Ends
      (Setting.alone scope m.parameters) held s fun result t =>
      t = s ∧ result = ((s.record? (Path.join folder name)).filter (·.visibleIn world)).elim
        (.error (.missing (Path.join folder name))) .ok := by
  obtain ⟨host, there, isFolder, ready⟩ := above
  refine ends_resolve_along wf normal attests [name] ?_ (Path.components_join normal named)
  intro n stands place
  rw [← place] at there settled ⊢
  cases Store.Holds.unique there stands
  unfold Materializer.descend Materializer.expand
  simp only [isFolder, ready, Bool.not_true, Bool.false_eq_true, if_false, if_true]
  refine ends_bind (ends_pure ?_)
  refine ends_bind (alone_getOr wf.regular ?_ ?_)
  · intro child found
    obtain ⟨visible, decided⟩ := Option.ne_none_iff_exists'.mp (settled child found)
    have shown : child.visibleIn world = visible := by
      rw [Node.visibleIn, decided, Option.getD_some]
    simp only [then_ok, m.isVisible_decided decided, found, Option.filter_some, shown]
    refine ends_bind (ends_pure ?_)
    simp only [then_ok]
    cases visible with
    | true => exact ends_pure ⟨rfl, rfl⟩
    | false => exact ends_bind (ends_tell (ends_throw ⟨rfl, rfl⟩))
  · intro absent
    rw [absent]
    exact ⟨rfl, rfl⟩

theorem ends_resolve_hidden (normal : Path.IsNormal folder) (named : Path.IsName name)
    (attests : s.Attests world folder) (found : s.record? (Path.join folder name) = some k)
    (decided : k.decision? world = some false) :
    (m.resolve (Path.join folder name) world).Ends
      (Setting.alone scope m.parameters) held s fun result t =>
      t = s ∧ result = .error (.missing (Path.join folder name)) := by
  have above := wf.parented k folder (wf.holds found).1 (wf.parent_join normal named found)
  refine (ends_resolve_settled wf normal named attests above fun l there => ?_).mono ?_
  · cases Store.Holds.unique found there
    rw [decided]
    exact Option.some_ne_none _
  · rintro _ _ ⟨rfl, rfl⟩
    rw [found, Option.filter_some, Node.visibleIn, decided]
    exact ⟨rfl, rfl⟩

end Following

/-- A folder on record whose children are drawn without end. -/
def Materializer.Undrawable (m : Materializer) (t : Store) (path : String) : Prop :=
  ∃ host, t.record? path = some host ∧ m.specs? host = none

/-- Why a walk stops in a folder instead of going on under a name. -/
inductive Materializer.Stops (m : Materializer) (t : Store) (world : World) (folder name : String) :
    Failure → Prop where
  | absent (above : t.HoldsOpen folder) (none : t.record? (Path.join folder name) = none) :
      Stops m t world folder name (.missing (Path.join folder name))
  | hidden {k : Node} (found : t.record? (Path.join folder name) = some k)
      (decided : k.decision? world = some false) :
      Stops m t world folder name (.missing (Path.join folder name))
  | unending (undrawable : m.Undrawable t folder) : Stops m t world folder name (.unending folder)

theorem Materializer.Stops.failure {failure : Failure}
    (stops : m.Stops t world folder name failure) :
    failure = .missing (Path.join folder name) ∨ failure = .unending folder := by
  cases stops with
  | absent => exact Or.inl rfl
  | hidden => exact Or.inl rfl
  | unending => exact Or.inr rfl

section Walking

variable (wf : s.WellFormed scope m.parameters) (within : m.worlds.Within scope)
  (offers : m.worlds.Offers world)

include wf within offers

theorem ends_isVisible_decides (found : s.record? n.path = some k) (backfills : n.Backfills k) :
    (m.isVisible n world).Ends (Setting.alone scope m.parameters) held s fun result t =>
      ∃ visible l, result = .ok visible ∧ Moves m scope Deed.Decides s t ∧
        t.record? n.path = some l ∧
        n.Backfills l ∧ l.decision? world = some visible := by
  unfold Materializer.isVisible
  split
  · rename_i decided decision
    exact ends_pure ⟨decided, k, rfl, .none s, found, backfills, backfills.decision decision⟩
  · rename_i decision
    cases decision
  · rename_i name decision
    have below : n.parent ≠ none := by
      intro top
      simp [Node.decision?, Node.isRoot, top] at decision
    have below' : k.parent ≠ none := by
      rw [backfills.place.parent]
      exact below
    have recorded : ∀ {l : Node}, l.parent = n.parent →
        l.decision? (.named name) = l.existence[name]? := by
      intro l same
      rw [Node.decision?, Node.isRoot_eq_false (by rw [same]; exact below)]
      rfl
    obtain ⟨probability, configured⟩ := (mem_iff_getElem?_some _ _).mp offers
    have asked : m.worlds.probability? (.named name) = m.worlds.entries[name]? := rfl
    rw [asked, configured]
    have suits : (Store.Change.decision name (existsIn n.id name probability)).Suits m scope k :=
      ⟨below', probability, configured, by rw [backfills.place.id]⟩
    rw [← backfills.place.path] at found ⊢
    refine ends_bind (alone_change wf.regular (suits.fits within) found ?_ ?_)
    · intro same
      obtain ⟨decided, known⟩ := Store.Change.decision_declined same
      refine ends_bind (ends_tell (ends_pure ⟨_, k, rfl, .none s, found, backfills, ?_⟩))
      rw [recorded backfills.place.parent, Option.bind_some, known]
      rfl
    · intro l new proper
      have keeps := Store.Change.keeps new
      have kept : l.existence[name]? = some (existsIn n.id name probability) := by
        rw [(Store.Change.decision_cases new).2]
        exact Std.ExtTreeMap.getElem?_insert_self
      have decides : Deed.Decides
        (.changed k.path (.decision name (existsIn n.id name probability))) := trivial
      refine ends_bind (ends_tell (ends_pure ⟨_, l, rfl, .one decides (.changed found suits new),
        ?_, backfills.trans (.decided new), ?_⟩))
      · rw [Store.record?_replaced proper, keeps.place.path, if_pos rfl]
      · rw [recorded (keeps.place.parent.trans backfills.place.parent),
          kept, Option.bind_some, kept]
        rfl

theorem ends_step {more : List String} {post : Except Failure Node → Store → Prop}
    (found : s.record? here.path = some k) (keeps : Store.Change.Keeps here k)
    (isFolder : k.isFolder = true)
    (leads : ∀ t child l, Moves m scope Deed.Walks s t →
      t.record? (Path.join here.path name) = some l →
      Store.Change.Keeps child l → l.decision? world = some true →
      (m.descend world more child).Ends (Setting.alone scope m.parameters) held t post)
    (fails : ∀ t failure, Moves m scope Deed.Walks s t → m.Stops t world here.path name failure →
      post (.error failure) t) :
    (m.descend world (name :: more) here).Ends (Setting.alone scope m.parameters) held s post := by
  have isFolder' : here.isFolder = true := by rw [← keeps.isFolder, isFolder]
  have onward : ∀ u, Moves m scope Deed.Walks s u → u.HoldsOpen here.path →
      (getOr (Path.join here.path name) (.missing (Path.join here.path name)) >>= fun child =>
        m.isVisible child world >>= fun visible => if visible then m.descend world more child
          else Attempt.tell .hidden >>= fun _ =>
            (throw (.missing (Path.join here.path name)) : Attempt Node)).Ends
        (Setting.alone scope m.parameters) held u post := by
    intro u moves above
    have later := moves.wellFormed within wf
    refine ends_bind (alone_getOr later.regular ?_ ?_)
    · intro child there
      obtain ⟨stands, place⟩ := later.holds there
      refine ends_bind ((ends_isVisible_decides later within offers stands (.refl child)).mono ?_)
      rintro _ v ⟨visible, l, rfl, decides, found', backfills, decided⟩
      have rest := decides.mono Deed.walks_of_decides
      have keeps' := backfills.keeps
      rw [place] at found'
      simp only [then_ok]
      cases visible with
      | true => exact leads v child l (moves.append rest) found' keeps' decided
      | false =>
        exact ends_bind
          (ends_tell (ends_throw (fails v _ (moves.append rest) (.hidden found' decided))))
    · exact fun absent => fails u _ moves (.absent above absent)
  unfold Materializer.descend
  rw [isFolder']
  refine ends_bind (ends_expand wf within found isFolder keeps.generated ?_ ?_ ?_)
  · exact fun ready => onward s (.none s) ⟨k, found, isFolder, ready⟩
  · intro time specs opens
    have place := (wf.holds found).2
    refine onward _ (.one (Deed.walks_expanded _) (.expanded opens)) ⟨k.expanded, ?_, isFolder, rfl⟩
    rw [← place, opens.record? wf within, if_pos rfl]
  · intro fresh none
    rw [(wf.holds found).2]
    exact fails s _ (.none s) (.unending ⟨k, found, none⟩)

theorem ends_descend_attests {names : List String} (valid : ∀ name ∈ names, Path.IsName name)
    (attests : s.Attests world here.path) (found : s.record? here.path = some k)
    (keeps : Store.Change.Keeps here k) :
    (m.descend world names here).Ends (Setting.alone scope m.parameters) held s fun result t =>
      Moves m scope Deed.Walks s t ∧ ∀ n, result = .ok n →
        n.path = names.foldl Path.join here.path ∧
        t.Attests world n.path ∧ ∃ l, t.record? n.path = some l ∧ Store.Change.Keeps n l := by
  induction names generalizing s here k with
  | nil =>
    refine ends_pure ⟨.none s, ?_⟩
    rintro n ⟨⟩
    exact ⟨rfl, attests, k, found, keeps⟩
  | cons name names ih =>
    obtain ⟨named, valid⟩ := List.forall_mem_cons.mp valid
    have normal : Path.IsNormal here.path := by
      obtain ⟨holds, place⟩ := wf.holds found
      rw [← place]
      exact (wf.shaped holds).normal
    cases isFolder : k.isFolder with
    | false =>
      rw [keeps.isFolder] at isFolder
      unfold Materializer.descend
      rw [isFolder]
      exact ends_throw ⟨.none s, fun n ok => by cases ok⟩
    | true =>
      refine ends_step wf within offers found keeps isFolder ?_ ?_
      · intro t child l moves found' keeps' decided
        have later := moves.wellFormed within wf
        have place : child.path = Path.join here.path name := by
          rw [← keeps'.place.path, (later.holds found').2]
        have attests' : t.Attests world child.path := by
          rw [place, Store.attests_join normal named]
          exact ⟨attests.walks within wf moves, l, found', decided⟩
        refine (ih later valid attests' (by rw [place]; exact found') keeps').mono ?_
        rintro result u ⟨rest, arrived⟩
        rw [place] at arrived
        exact ⟨moves.append rest, arrived⟩
      · exact fun t failure moves _ => ⟨moves, fun n ok => by cases ok⟩

theorem ends_resolve_attests (normal : Path.IsNormal path) :
    (m.resolve path world).Ends (Setting.alone scope m.parameters) held s fun result t =>
      Moves m scope Deed.Walks s t ∧ ∀ n, result = .ok n → n.path = path ∧ t.Attests world path ∧
        ∃ l, t.record? path = some l ∧ Store.Change.Keeps n l := by
  obtain ⟨top, root⟩ := wf.root
  obtain ⟨holds, place⟩ := wf.holds root
  have along : (Path.components path).foldl Path.join top.path = path := by
    rw [place, normal.foldl_join]
  refine ends_bind (alone_getOr wf.regular ?_ ?_)
  · intro k found
    cases Store.Holds.unique root found
    refine (ends_descend_attests wf within offers normal.components.1
      (place ▸ wf.attests_root world) holds
      (.refl top)).mono ?_
    rintro result t ⟨moves, arrived⟩
    refine ⟨moves, fun n ok => ?_⟩
    have known := arrived n ok
    rw [along] at known
    obtain ⟨rfl, attests, there⟩ := known
    exact ⟨rfl, attests, there⟩
  · intro absent
    rw [root] at absent
    cases absent

end Walking

theorem Engine.ends_getNode_attests {e : Engine} {input : String}
    (wf : s.WellFormed scope e.materializer.parameters)
    (within : e.materializer.worlds.Within scope)
    (offers : e.worlds.Offers world) : (e.getNode input world).Ends
      (Setting.alone scope e.materializer.parameters) held s fun result t => ∀ n, result = .ok n →
        Path.normalize input = .ok n.path ∧ t.Attests world n.path := by
  refine ends_accept (fun failure _ n ok => by cases ok) fun path accepted normal => ?_
  refine (ends_resolve_attests wf within offers normal).mono ?_
  rintro result t ⟨_, arrived⟩ n ok
  obtain ⟨rfl, attests, _⟩ := arrived n ok
  exact ⟨(accept_ok_iff.mp accepted).2, attests⟩

theorem Engine.ends_getNode_attested {e : Engine} {input : String}
    (wf : s.WellFormed scope e.materializer.parameters) (offers : e.worlds.Offers world)
    (normalized : Path.normalize input = .ok path) (attests : s.Attests world path)
    (found : s.record? path = some n) :
    (e.getNode input world).Ends
      (Setting.alone scope e.materializer.parameters) held s fun result t =>
      t = s ∧ result = .ok n := by
  unfold Engine.getNode
  rw [WorldTable.check_of_offers offers, normalized]
  refine ends_bind (ends_fromWorld ?_)
  refine ends_bind (ends_fromPath ?_)
  refine (ends_resolve_attested wf (Path.normalize_isNormal normalized) attests).mono ?_
  rintro _ _ ⟨rfl, k, rfl, found'⟩
  cases Store.Holds.unique found found'
  exact ⟨rfl, rfl⟩

theorem Engine.ends_getNode_hidden {e : Engine} {input : String}
    (wf : s.WellFormed scope e.materializer.parameters) (offers : e.worlds.Offers world)
    (normal : Path.IsNormal folder) (named : Path.IsName name)
    (normalized : Path.normalize input = .ok (Path.join folder name))
    (attests : s.Attests world folder)
    (found : s.record? (Path.join folder name) = some k)
    (decided : k.decision? world = some false) :
    (e.getNode input world).Ends
      (Setting.alone scope e.materializer.parameters) held s fun result t =>
      t = s ∧ result = .error (.missing (Path.join folder name)) := by
  unfold Engine.getNode
  rw [WorldTable.check_of_offers offers, normalized]
  refine ends_bind (ends_fromWorld ?_)
  refine ends_bind (ends_fromPath ?_)
  exact ends_resolve_hidden wf normal named attests found decided

theorem Engine.ends_deleteNode_attested {e : Engine} {input : String}
    (wf : s.WellFormed scope e.materializer.parameters) (offers : e.worlds.Offers world)
    (normalized : Path.normalize input = .ok path) (inner : path ≠ Path.root)
    (attests : s.Attests world path)
    (found : s.record? path = some n) (done : n.isFolder = true → n.generated = true)
    (empty : ∀ k, s.Holds k → k.parent ≠ some path) :
    (e.deleteNode input world).Ends
      (Setting.alone scope e.materializer.parameters) held s fun result t =>
      result = .ok () ∧ t = s.eraseNode path n := by
  unfold Engine.deleteNode
  rw [WorldTable.check_of_offers offers, normalized]
  refine ends_bind (ends_fromWorld ?_)
  refine ends_bind (ends_fromPath ?_)
  refine ends_ite (fun top => absurd (of_decide_eq_true top) inner) fun _ => ?_
  refine ends_bind ((ends_resolve_attested wf (Path.normalize_isNormal normalized) attests).mono ?_)
  rintro _ s ⟨rfl, k, rfl, found'⟩
  cases Store.Holds.unique found found'
  obtain ⟨holds, place⟩ := wf.holds found
  have removes : (withLock (n.parent.getD Path.root) (withLock n.path (deleteLocked n.path))).Ends
      (Setting.alone scope e.materializer.parameters) held s
        fun result t => result = .ok () ∧ t = s.eraseNode path n := by
    refine alone_withLock (alone_withLock (ends_deleteLocked wf holds ?_ fun _ => ?_))
    · intro k _ stands inside
      rw [place] at inside
      exact absurd inside (empty k stands)
    · exact ⟨rfl, by rw [place]⟩
  refine ends_ite (fun isFolder => ?_) fun _ => removes
  unfold Materializer.expand
  rw [if_pos (done isFolder)]
  exact removes

end SeedTree
