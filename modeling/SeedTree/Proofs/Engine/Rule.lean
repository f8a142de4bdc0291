import SeedTree.Proofs.Engine.Move

/- Rules that every record of a store obeys. A rule that holds of the root and of all that is made
   by hand, and that folders hand on to what they generate and changes keep, survives all moves. -/
namespace SeedTree

structure NodeRule (scope : Scope) (p : Parameters) (rule : Node → Prop) : Prop where
  root : ∀ time, rule (Node.root (nodeIdOf p.seed Path.root) time)
  expanded : ∀ n, rule n → rule n.expanded
  generated : ∀ (m : Materializer) s folder time specs spec, m.parameters = p →
    s.WellFormed scope m.parameters →
    m.Opens s folder time specs → spec ∈ specs → rule folder →
      rule (m.generatedChild folder time spec)
  made : ∀ (m : Materializer) folder n, m.Handmade scope folder n → rule n
  changed : ∀ (m : Materializer) n k (change : Store.Change), m.parameters = p →
    change.Suits m scope n → change.apply n = some k → rule n → rule k

def Store.Obeys (s : Store) (rule : Node → Prop) : Prop := ∀ n, s.Holds n → rule n

variable {m : Materializer} {scope : Scope} {p : Parameters} {s t : Store} {n k : Node}
  {rule : Node → Prop}

section Moving

variable (kept : NodeRule scope m.parameters rule) (within : m.worlds.Within scope)

include kept within

theorem Move.obeys {deed : Deed} (move : Move m scope deed s t)
    (wf : s.WellFormed scope m.parameters) (obeys : s.Obeys rule) : t.Obeys rule := by
  intro n holds
  cases move with
  | @expanded _ folder _ _ opens =>
    rcases opens.holds_cases wf within holds with rfl | member | ⟨old, _⟩
    · exact kept.expanded folder (obeys folder opens.holds)
    · obtain ⟨spec, among, rfl⟩ := List.mem_map.mp member
      exact kept.generated m s folder _ _ spec rfl wf opens among (obeys folder opens.holds)
    · exact obeys n old
  | @changed _ old new change present suits applied =>
    have proper := (suits.fits within).proper applied (wf.regular.sound.proper present).1
    rcases Store.holds_replaced proper holds with rfl | stands
    · exact kept.changed m old n change rfl suits applied (obeys old present)
    · exact obeys n stands
  | @made _ folder new _ _ _ absent handmade =>
    rcases (Store.holds_insertNode handmade.proper absent).mp holds with rfl | old
    · exact kept.made m folder n handmade
    · exact obeys n old
  | removed => exact obeys n ((Store.holds_eraseNode _ _ n).mp holds).1

theorem Moves.obeys {may : Deed → Prop} (moves : Moves m scope may s t)
    (wf : s.WellFormed scope m.parameters) (obeys : s.Obeys rule) : t.Obeys rule := by
  induction moves with
  | none s => exact obeys
  | more permitted move rest ih =>
    exact ih (move.wellFormed within wf) (move.obeys kept within wf obeys)

end Moving

/-- A checksum on record is the checksum of what a file serves now. -/
def Node.Honest (p : Parameters) (n : Node) : Prop := ∀ text, n.checksum = some text →
  n.isFolder = false ∧ text = checksumOf (fileContent n.id p.contentSeed n.upload)

theorem honest_of_unread (unread : n.checksum = none) : n.Honest p := by
  intro text known
  rw [unread] at known
  cases known

theorem Store.Change.honest {change : Store.Change} (suits : change.Suits m scope n)
    (new : change.apply n = some k) (honest : n.Honest m.parameters) : k.Honest m.parameters := by
  have kept := keeps new
  intro text known
  rw [kept.isFolder, kept.place.id]
  rcases checksum_cases new with ⟨same, upload⟩ | none | ⟨_, rfl, noted, upload⟩
  · rw [upload]
    exact honest text (same.symm.trans known)
  · rw [none] at known
    cases known
  · rw [noted] at known
    cases known
    rw [upload]
    exact suits

theorem honest_rule (scope : Scope) (p : Parameters) : NodeRule scope p (Node.Honest p) where
  root := fun _ => honest_of_unread rfl
  expanded := fun _ honest => honest
  generated := fun _ _ _ _ _ _ _ _ _ _ _ => honest_of_unread rfl
  made := fun _ _ _ handmade => honest_of_unread handmade.unread
  changed := by
    rintro m n k change rfl suits new honest
    exact Store.Change.honest suits new honest

def Node.RootUndecided (n : Node) : Prop := n.parent = none → n.existence = ∅

theorem undecided_rule (scope : Scope) (p : Parameters) : NodeRule scope p Node.RootUndecided where
  root := fun _ _ => rfl
  expanded := fun _ undecided => undecided
  generated := by
    intro m s folder time specs spec _ _ _ _ _ top
    cases top
  made := by
    intro m folder n handmade top
    rw [handmade.below] at top
    cases top
  changed := by
    intro m n k change _ suits new undecided top
    rw [(Store.Change.keeps new).place.parent] at top
    cases change with
    | markGenerated => exact suits.elim
    | content upload time =>
      cases new
      exact undecided top
    | checksum text computedFor =>
      simp only [Store.Change.apply] at new
      split at new
      · cases new
      · cases new
        exact undecided top
    | decision world present => exact absurd top suits.1
    | redecision world present => exact absurd top suits.1

end SeedTree
