import SeedTree.Proofs.Deletion

/- Where nodes come from. What nobody has touched was drawn by the generator, and so was everything
   above it, down to the greatest depth and no deeper. Where nothing is found the generator puts
   nothing later on, be it at the path or anywhere below. -/
namespace SeedTree

/-- As the generator leaves a node: a folder still to be expanded, or a file that has never been
uploaded. -/
def Node.Untouched (n : Node) : Prop :=
  match n.kind with
  | .folder => n.generated = false
  | .file => n.upload = none

/-- The generator draws a node of this kind at this path, and a folder at every place above it. -/
inductive Parameters.Draws (p : Parameters) : String → NodeKind → Prop where
  | root : Draws p Path.root .folder
  | entry {folder : String} {spec : ChildSpec} {specs : List ChildSpec}
    (above : Draws p folder .folder)
      (drawn : Children.generate? Draw.patience p folder
        (UInt32.ofNat (Path.components folder).length) = some specs)
      (member : spec ∈ specs) : Draws p (Path.join folder spec.name) spec.kind

def NodeKind.reach (p : Parameters) : NodeKind → Nat
  | .folder => p.maxDepth.toNat
  | .file => p.maxDepth.toNat + 1

/-- From the root down to a record, each lies in its folder's record under a name and with a kind
that the generator draws for that folder. -/
inductive Store.Stems (s : Store) (m : Materializer) : Node → Prop where
  | root {n : Node} (holds : s.Holds n) (top : n.parent = none) : Stems s m n
  | entry {n folder : Node} {specs : List ChildSpec} (holds : s.Holds n)
      (below : n.parent = some folder.path) (above : Stems s m folder)
      (drawn : m.specs? folder = some specs) (member : ⟨n.name, n.kind⟩ ∈ specs) : Stems s m n

variable {m : Materializer} {scope : Scope} {p : Parameters} {s t : Store} {n k folder : Node}
  {path : String} {kind : NodeKind}

namespace Node

theorem untouched_folder_iff (isFolder : n.isFolder = true) :
    n.Untouched ↔ n.generated = false := by
  rw [Untouched, isFolder_iff.mp isFolder]

theorem untouched_file_iff (isFile : n.isFolder = false) : n.Untouched ↔ n.upload = none := by
  rw [Untouched, not_isFolder_iff.mp isFile]

end Node

theorem Materializer.Handmade.touched (handmade : m.Handmade scope folder n) : ¬ n.Untouched := by
  intro untouched
  cases isFolder : n.isFolder with
  | true =>
    rw [n.untouched_folder_iff isFolder, handmade.complete, isFolder] at untouched
    cases untouched
  | false => exact handmade.uploaded isFolder ((n.untouched_file_iff isFolder).mp untouched)

theorem Store.Change.untouched {change : Store.Change} (suits : change.Suits m scope n)
    (new : change.apply n = some k) (untouched : k.Untouched) : n.Untouched := by
  have akin := akin new suits
  cases isFolder : n.isFolder with
  | true =>
    rw [k.untouched_folder_iff (akin.isFolder.trans isFolder), akin.generated] at untouched
    exact (n.untouched_folder_iff isFolder).mpr untouched
  | false =>
    rw [k.untouched_file_iff (akin.isFolder.trans isFolder)] at untouched
    refine (n.untouched_file_iff isFolder).mpr ?_
    cases change with
    | markGenerated => exact suits.elim
    | content upload time =>
      cases new
      cases untouched
    | checksum text computedFor =>
      simp only [apply] at new
      split at new
      · cases new
      · cases new
        exact untouched
    | decision world present =>
      simp only [apply] at new
      split at new
      · cases new
      · cases new
        exact untouched
    | redecision world present =>
      simp only [apply] at new
      split at new
      · cases new
      · cases new
        exact untouched

namespace Parameters.Draws

theorem normal (draws : p.Draws path kind) : Path.IsNormal path := by
  induction draws with
  | root => exact Path.isNormal_root
  | entry above drawn member ih =>
    exact Path.isNormal_join ih (Children.generate?_isName drawn member)

theorem length_components {folder : String} {spec : ChildSpec} {specs : List ChildSpec}
    (above : p.Draws folder .folder)
    (drawn : Children.generate? Draw.patience p folder
      (UInt32.ofNat (Path.components folder).length) = some specs) (member : spec ∈ specs) :
    (Path.components (Path.join folder spec.name)).length =
      (Path.components folder).length + 1 := by
  rw [Path.components_join above.normal (Children.generate?_isName drawn member),
    List.length_append]
  rfl

theorem folder_depth (draws : p.Draws path kind) (isFolder : kind = .folder) :
    (Path.components path).length ≤ p.maxDepth.toNat := by
  induction draws with
  | root =>
    rw [Path.components_root]
    exact Nat.zero_le _
  | @entry folder spec specs above drawn member ih =>
    have room := Children.generate?_folder_above drawn member isFolder
    have shallow := ih rfl
    have bound := p.maxDepth.toNat_lt
    rw [UInt32.lt_iff_toNat_lt, UInt32.toNat_ofNat', Nat.mod_eq_of_lt (by omega)] at room
    rw [length_components above drawn member]
    omega

theorem reach (draws : p.Draws path kind) : (Path.components path).length ≤ kind.reach p := by
  cases kind with
  | folder => exact draws.folder_depth rfl
  | file =>
    generalize same : NodeKind.file = kind at draws
    cases draws with
    | root => cases same
    | entry above drawn member =>
      rw [length_components above drawn member, ← same]
      exact Nat.succ_le_succ (above.folder_depth rfl)

theorem stems (draws : m.parameters.Draws path kind) (wf : s.WellFormed scope m.parameters)
    (found : s.record? path = some n) (same : n.kind = kind) : s.Stems m n := by
  induction draws generalizing n with
  | root =>
    obtain ⟨holds, place⟩ := wf.holds found
    exact .root holds ((wf.shaped holds).parent_eq_none_iff.mpr place)
  | @entry folder spec specs above drawn member ih =>
    have named := Children.generate?_isName drawn member
    obtain ⟨holds, place⟩ := wf.holds found
    have below := wf.parent_join above.normal named found
    obtain ⟨host, there, isFolder, _⟩ := wf.parented n folder holds below
    obtain ⟨stands, here⟩ := wf.holds there
    have name : n.name = spec.name := by
      rw [(wf.shaped holds).name, place, Path.fileName_join above.normal named]
    have promised : m.specs? host = some specs := by
      rw [Materializer.specs?, (wf.shaped stands).depth, here]
      exact drawn
    refine .entry holds ?_ (ih there (Node.isFolder_iff.mp isFolder)) promised ?_
    · rw [below, here]
    · rw [name, same]
      exact member

end Parameters.Draws

def Node.Native (p : Parameters) (n : Node) : Prop := n.Untouched → p.Draws n.path n.kind

theorem native_rule (scope : Scope) (p : Parameters) : NodeRule scope p (Node.Native p) where
  root := fun _ _ => .root
  expanded := by
    intro n native untouched
    cases isFolder : n.isFolder with
    | true =>
      rw [n.expanded.untouched_folder_iff isFolder] at untouched
      cases untouched
    | false =>
      exact native ((n.untouched_file_iff isFolder).mpr
        ((n.expanded.untouched_file_iff isFolder).mp untouched))
  generated := by
    rintro m s folder time specs spec rfl wf opens member native _
    have above := native ((folder.untouched_folder_iff opens.isFolder).mpr opens.fresh)
    rw [Node.isFolder_iff.mp opens.isFolder] at above
    have drawn := opens.drawn
    rw [Materializer.specs?, (wf.shaped opens.holds).depth] at drawn
    exact .entry above drawn member
  made := fun _ _ _ handmade untouched => absurd untouched handmade.touched
  changed := by
    rintro m n k change rfl suits new native untouched
    have akin := Store.Change.akin new suits
    rw [akin.path, akin.kind]
    exact native (Store.Change.untouched suits new untouched)

/-- Nothing can be generated at a path or below it: nothing is shown there, or all that stands there
has been touched. -/
def Materializer.Fallow (m : Materializer) (s : Store) (path : String) : Prop :=
  m.Bars s path ∨
    (s.record? path ≠ none ∧ ∀ n, s.Holds n → Path.Within path n.path → ¬ n.Untouched)

section Lying

variable (within : m.worlds.Within scope) (wf : s.WellFormed scope m.parameters)
  (normal : Path.IsNormal path)

include wf normal

theorem Store.WellFormed.not_within (absent : s.record? path = none) (holds : s.Holds n) :
    ¬ Path.Within path n.path := by
  have shaped := wf.shaped holds
  have known : ∀ other, Path.IsNormal other → s.record? other ≠ none →
      ¬ Path.Within path other := by
    intro other normal'
    induction normal' using Path.IsNormal.induct with
    | top =>
      intro _ inside
      refine Path.not_within_root normal ?_ inside
      rintro rfl
      obtain ⟨top, there⟩ := wf.root
      rw [absent] at there
      cases there
    | below folder name normal' named ih =>
      intro present inside
      obtain ⟨n, found⟩ := Option.ne_none_iff_exists'.mp present
      rcases (Path.within_join_iff normal normal' named).mp inside with above | here
      · obtain ⟨host, there, _⟩ := wf.parented n folder (wf.holds found).1
          (wf.parent_join normal' named found)
        exact ih (by rw [there]; exact Option.some_ne_none host) above
      · rw [here] at present
        exact present absent
  refine known n.path shaped.normal ?_
  rw [holds]
  exact Option.some_ne_none n

theorem Materializer.Fallow.touched (fallow : m.Fallow s path) (holds : s.Holds n)
    (inside : Path.Within path n.path) : ¬ n.Untouched := by
  rcases fallow with bars | ⟨_, touched⟩
  · exact absurd inside (wf.not_within normal (bars.absent wf normal) holds)
  · exact touched n holds inside

end Lying

section Moving

variable (within : m.worlds.Within scope) (wf : s.WellFormed scope m.parameters)
  (normal : Path.IsNormal path)

include within wf normal

section Touched

variable (there : s.record? path ≠ none)
  (touched : ∀ n, s.Holds n → Path.Within path n.path → ¬ n.Untouched)

include there touched

theorem Materializer.Opens.fallow {time : Moment} {specs : List ChildSpec}
    (opens : m.Opens s folder time specs) : m.Fallow (s.opened m folder time specs) path := by
  obtain ⟨n, found⟩ := Option.ne_none_iff_exists'.mp there
  have outside : ¬ Path.Within path folder.path := fun inside =>
    touched folder opens.holds inside ((folder.untouched_folder_iff opens.isFolder).mpr opens.fresh)
  have apart : path ≠ folder.path := by
    rintro rfl
    exact outside (Path.within_refl _)
  refine Or.inr ⟨?_, fun k stands inside => ?_⟩
  · rw [opens.stays wf within found apart]
    exact Option.some_ne_none n
  · rcases opens.holds_cases wf within stands with rfl | member | ⟨old, _⟩
    · exact absurd inside outside
    · have absent := opens.absent wf k member
      obtain ⟨spec, drawn, rfl⟩ := List.mem_map.mp member
      obtain ⟨normal', named⟩ := opens.named wf drawn
      rw [Materializer.generatedChild_path] at inside absent
      rcases (Path.within_join_iff normal normal' named).mp inside with above | here
      · exact absurd above outside
      · rw [here] at absent
        exact absurd absent there
    · exact touched k old inside

omit normal in
theorem Materializer.fallow_replaced {change : Store.Change} (holds : s.Holds n)
    (suits : change.Suits m scope n) (applied : change.apply n = some k) :
    m.Fallow (s.replaced k) path := by
  have proper := (suits.fits within).proper applied (wf.regular.sound.proper holds).1
  refine Or.inr ⟨?_, fun l stands inside => ?_⟩
  · rw [Store.record?_replaced proper]
    split
    · exact Option.some_ne_none k
    · exact there
  · rcases Store.holds_replaced proper stands with rfl | earlier
    · rw [(Store.Change.keeps applied).place.path] at inside
      exact fun untouched =>
        touched n holds inside (Store.Change.untouched suits applied untouched)
    · exact touched l earlier inside

omit within wf normal in
theorem Materializer.fallow_insertNode (absent : s.record? n.path = none)
    (handmade : m.Handmade scope folder n) : m.Fallow (s.insertNode n) path := by
  refine Or.inr ⟨?_, fun k stands inside => ?_⟩
  · rw [Store.record?_insertNode handmade.proper]
    split
    · exact Option.some_ne_none n
    · exact there
  · rcases (Store.holds_insertNode handmade.proper absent).mp stands with rfl | old
    · exact handmade.touched
    · exact touched k old inside

omit normal in
theorem Materializer.fallow_eraseNode (holds : s.Holds n) (below : n.parent ≠ none)
    (empty : ∀ k, s.Holds k → k.parent ≠ some n.path) : m.Fallow (s.eraseNode n.path n) path := by
  by_cases here : path = n.path
  · rw [here]
    exact Or.inl (Store.WellFormed.bars_removed within wf holds below empty)
  · refine Or.inr ⟨?_, fun k stands inside => ?_⟩
    · rw [Store.record?_eraseNode, if_neg here]
      exact there
    · exact touched k ((Store.holds_eraseNode _ _ k).mp stands).1 inside

end Touched

/-- No move sows where nothing was, and none makes untouched what has been touched. -/
theorem Move.fallow {deed : Deed} (move : Move m scope deed s t) (fallow : m.Fallow s path) :
    m.Fallow t path := by
  rcases fallow with bars | ⟨there, touched⟩
  · by_cases other : deed = .made path
    · subst other
      have absent := bars.absent wf normal
      cases move with
      | @made _ folder n holds isFolder ready free handmade =>
        refine Or.inr ⟨?_, fun k stands inside => ?_⟩
        · rw [Store.record?_insertNode handmade.proper, if_pos rfl]
          exact Option.some_ne_none n
        · rcases (Store.holds_insertNode handmade.proper free).mp stands with rfl | old
          · exact handmade.touched
          · exact absurd inside (wf.not_within normal absent old)
    · exact Or.inl (bars.move within wf move normal other)
  · cases move with
    | expanded opens => exact opens.fallow within wf normal there touched
    | changed holds suits applied =>
      exact m.fallow_replaced within wf there touched holds suits applied
    | made _ _ _ absent handmade => exact m.fallow_insertNode there touched absent handmade
    | removed holds below empty =>
      exact m.fallow_eraseNode within wf there touched holds below empty

omit wf in
theorem Moves.fallow {may : Deed → Prop} (moves : Moves m scope may s t)
    (wf : s.WellFormed scope m.parameters) (fallow : m.Fallow s path) : m.Fallow t path := by
  induction moves with
  | none s => exact fallow
  | more permitted move rest ih =>
    exact ih (move.wellFormed within wf) (move.fallow within wf normal fallow)

end Moving

theorem Materializer.view_of_missing {names : List String} {missed : String}
    (missing : m.walk s .primary names n = .error (.missing missed)) :
    m.view s names n = .ok none := by
  induction names generalizing n with
  | nil => cases missing
  | cons name more ih =>
    unfold walk at missing
    split at missing
    · cases missing
    · rename_i isFolder
      rw [m.view_cons s (by simpa using isFolder)]
      cases found : m.lookup s n name with
      | error failure =>
        rw [found] at missing
        cases (Except.error.inj missing).symm.trans (Materializer.lookup_error found)
      | ok below =>
        rw [found] at missing
        cases below with
        | none => rfl
        | some child => exact ih missing

namespace Session

variable {a b c : Session}

def Fallow (a : Session) (path : String) : Prop := a.engine.materializer.Fallow a.store path

theorem Turn.fallow {kind : Option Operation} (turn : Turn scope kind a b) (valid : a.Valid scope)
    (fallow : a.Fallow path) (normal : Path.IsNormal path) : b.Fallow path := by
  cases turn with
  | operates operation fits here timely =>
    exact (valid.moves fits here timely).fallow valid.ready.within normal valid.wellFormed fallow
  | reopens shape within here timely started =>
    have turn : Turn scope none a _ := .reopens shape within here timely started
    have same := (valid.reopened shape here timely started).1
    rcases fallow with bars | ⟨there, touched⟩
    · exact Or.inl (turn.bars valid bars normal fun _ impossible => by cases impossible)
    · refine Or.inr ⟨?_, fun n holds => touched n ((same.holds_iff n).mp holds)⟩
      rw [same.record?]
      exact there

theorem Turns.fallow {may : Option Operation → Prop} (turns : Turns scope may a b)
    (valid : a.Valid scope) (fallow : a.Fallow path) (normal : Path.IsNormal path) :
    b.Fallow path := by
  induction turns with
  | none a => exact fallow
  | more rest permitted turn ih => exact turn.fallow (rest.valid valid) (ih valid fallow) normal

theorem Valid.bars_of_missing {input missed : String} {site : Site} (valid : a.Valid scope)
    (here : site.store = a.store) (timely : site.Timely)
    (normalized : Path.normalize input = .ok path)
    (missing : ((a.engine.getNode input .primary).runOn site).1 = .error (.missing missed)) :
    a.Bars path := by
  have wf := valid.wellFormed
  rw [← here] at wf
  have ends : (a.engine.getNode input .primary).Ends
    (Setting.alone scope a.engine.materializer.parameters) [] site.store _ :=
    ends_getNode wf valid.ready
  have answer := (ends.runOn timely).answer
  rw [missing] at answer
  have expected := answer.eq_error
  have accepted : a.engine.accept input .primary = .ok path :=
    Engine.accept_ok_iff.mpr ⟨rfl, normalized⟩
  obtain ⟨top, root⟩ := valid.wellFormed.root
  rw [accepted, here] at expected
  change a.engine.materializer.resolved a.store .primary path = _ at expected
  rw [Materializer.resolved, root] at expected
  rw [Bars, Materializer.Bars, Materializer.shows_root _ root]
  exact Materializer.view_of_missing expected

/-- In every state a session can be in: what nobody has touched stems from the generator, with
everything above it, and lies no deeper than that draws. A folder below the greatest depth needs no
expansion. Where a look in the primary world misses a node, nothing untouched will ever stand, nor
anywhere below, so that a folder made there stays what it was made as. -/
theorem untouched_drawn (reached : a.Reached scope) :
    (∀ n, a.store.Holds n → n.Untouched → a.store.Stems a.engine.materializer n ∧
      (Path.components n.path).length ≤ n.kind.reach a.engine.materializer.parameters ∧
      n.depth.toNat ≤ n.kind.reach a.engine.materializer.parameters) ∧
    (∀ n, a.store.Holds n → n.isFolder = true →
      a.engine.materializer.parameters.maxDepth < n.depth ∨
        a.engine.materializer.parameters.maxDepth.toNat < (Path.components n.path).length →
      n.generated = true) ∧
    ∀ input missed path site c, Path.normalize input = .ok path →
      site.store = a.store → site.Timely →
      ((a.engine.getNode input .primary).runOn site).1 = .error (.missing missed) →
      Turns scope (fun _ => True) a c →
      ∀ n, c.store.Holds n → Path.Within path n.path → ¬ n.Untouched := by
  have valid := reached.valid
  have wf := valid.wellFormed
  have native := reached.obeys (native_rule scope)
  have reaches : ∀ n, a.store.Holds n → n.Untouched →
      (Path.components n.path).length ≤ n.kind.reach a.engine.materializer.parameters ∧
      n.depth.toNat ≤ n.kind.reach a.engine.materializer.parameters := by
    intro n holds untouched
    have near := (native n holds untouched).reach
    refine ⟨near, Nat.le_trans ?_ near⟩
    rw [(wf.shaped holds).depth, UInt32.toNat_ofNat']
    exact Nat.mod_le _ _
  refine ⟨?_, ?_, ?_⟩
  · intro n holds untouched
    exact ⟨(native n holds untouched).stems wf holds rfl, reaches n holds untouched⟩
  · intro n holds isFolder deep
    cases ready : n.generated with
    | true => rfl
    | false =>
      obtain ⟨near, shallow⟩ := reaches n holds ((n.untouched_folder_iff isFolder).mpr ready)
      rw [Node.isFolder_iff.mp isFolder] at near shallow
      rcases deep with deep | deep
      · exact absurd shallow (Nat.not_le.mpr (UInt32.lt_iff_toNat_lt.mp deep))
      · exact absurd near (Nat.not_le.mpr deep)
  · intro input missed path site c normalized here timely missing turns n holds inside
    have normal := Path.normalize_isNormal normalized
    have bars := valid.bars_of_missing here timely normalized missing
    have fallow : c.Fallow path := turns.fallow valid (Or.inl bars) normal
    exact fallow.touched (turns.valid valid).wellFormed normal holds inside

theorem newTree_misses :
    ((newTree.engine.getNode "/a" .primary).runOn (.still newTree.store)).1 =
      .error (.missing "/a") := by
  have failed :
    (((newTree.engine.getNode "/a" .primary).runOn (.still newTree.store)).1.map fun _ => ())
      = .error (.missing "/a") := by
    decide +kernel
  generalize ((newTree.engine.getNode "/a" .primary).runOn (.still newTree.store)).1 =
    result at failed ⊢
  cases result with
  | ok n => cases failed
  | error failure => rw [Except.error.inj failed]

theorem newFolder_touched : newTree.Reached .bare ∧ newFolder.Reached .bare ∧
    (∃ n, newFolder.store.Holds n ∧ n.path = "/kelp_nectar" ∧ n.Untouched ∧
      newFolder.store.Stems newFolder.engine.materializer n) ∧
    ((newTree.engine.getNode "/a" .primary).runOn (.still newTree.store)).1 =
      .error (.missing "/a") ∧
    newFolder.store.record? "/a" ≠ none ∧
    ∀ n, newFolder.store.Holds n → Path.Within "/a" n.path → ¬ n.Untouched := by
  have before : newTree.Reached .bare := ⟨_, newTree_begins, .none _⟩
  have drawn := untouched_drawn newFolder_reached
  have seen : ((newFolder.store.record? "/a").isSome &&
      (newFolder.store.record? "/kelp_nectar").any fun n =>
        n.path = "/kelp_nectar" && n.isFolder && !n.generated) = true := by
    decide +kernel
  obtain ⟨there, seen⟩ := Bool.and_eq_true_iff.mp seen
  obtain ⟨n, found, known⟩ := Option.any_eq_true _ _ |>.mp seen
  simp only [Bool.and_eq_true, decide_eq_true_iff, Bool.not_eq_true'] at known
  obtain ⟨⟨place, isFolder⟩, fresh⟩ := known
  have holds : newFolder.store.Holds n := by rw [Store.Holds, place, found]
  have untouched : n.Untouched := (n.untouched_folder_iff isFolder).mpr fresh
  exact ⟨before, newFolder_reached, ⟨n, holds, place, untouched, (drawn.1 n holds untouched).1⟩,
    newTree_misses, Option.isSome_iff_ne_none.mp there,
    (untouched_drawn before).2.2 "/a" "/a" "/a" _ _ (by rfl) (Site.still_store _)
      (Site.still_timely _) newTree_misses (.more (.none _) trivial newFolder_turn)⟩

end Session

end SeedTree
