import SeedTree.Proofs.Engine.Growth
import SeedTree.Proofs.Engine.Footprint

/- What becomes of the record at a path while moves are about other paths: it is marked, decisions
   about it are put down, and it may be generated with its folder. -/
namespace SeedTree

/-- A node has grown since it was last written. -/
structure Node.Aged (m : Materializer) (n k : Node) : Prop extends Node.Grown m n k where
  updated : k.updated = n.updated

/-- What was at a path and what is there later. What is new there has been generated. -/
inductive Materializer.Ages (m : Materializer) : Option Node → Option Node → Prop where
  | absent : Ages m none none
  | aged {n k : Node} (aged : n.Aged m k) : Ages m (some n) (some k)
  | born {folder k : Node} {time : Moment} {specs : List ChildSpec} {spec : ChildSpec}
      (shaped : folder.Shaped m.parameters.seed)
        (drawn : m.specs? folder = some specs) (member : spec ∈ specs)
      (aged : (m.generatedChild folder time spec).Aged m k) : Ages m none (some k)

/-- Nothing that a deed does to a path but to look at it. -/
def Deed.Passes (path : String) : Deed → Prop
  | .expanded _ | .changed _ (.decision _ _) => True
  | .changed other _ | .made other | .removed other => other ≠ path

variable {m : Materializer} {scope : Scope} {s t u : Store} {n k l : Node}
  {path : String} {r : Operation}

namespace Node.Aged

theorem refl (n : Node) : n.Aged m n := ⟨.refl n, rfl⟩

theorem trans (early : n.Aged m k) (late : k.Aged m l) : n.Aged m l :=
  ⟨early.toGrown.trans late.toGrown, late.updated.trans early.updated⟩

end Node.Aged

namespace Materializer.Ages

theorem refl (found : Option Node) : m.Ages found found := by
  cases found with
  | none => exact .absent
  | some n => exact .aged (.refl n)

theorem trans {first second third : Option Node} (early : m.Ages first second)
    (late : m.Ages second third) : m.Ages first third := by
  cases early with
  | absent => exact late
  | aged aged =>
    cases late with
    | aged aged' => exact .aged (aged.trans aged')
  | born shaped drawn member aged =>
    cases late with
    | aged aged' => exact .born shaped drawn member (aged.trans aged')

end Materializer.Ages

section Moving

variable (within : m.worlds.Within scope) (wf : s.WellFormed scope m.parameters)

include within wf

theorem Move.ages {deed : Deed} (move : Move m scope deed s t) (passes : deed.Passes path) :
    m.Ages (s.record? path) (t.record? path) := by
  cases move with
  | @expanded _ folder time specs opens =>
    rw [opens.record? wf within]
    split
    · rename_i here
      rw [here, opens.holds]
      exact .aged ⟨.expanded folder, rfl⟩
    · cases found : (m.offspring folder time specs).find? (·.path = path) with
      | none => exact .refl _
      | some k =>
        obtain ⟨spec, member, rfl⟩ := List.mem_map.mp (List.mem_of_find?_eq_some found)
        have place : (m.generatedChild folder time spec).path = path :=
          decide_eq_true_iff.mp (List.find?_some (p := fun k : Node => k.path = path) found)
        rw [← place, opens.absent wf _ (List.mem_of_find?_eq_some found)]
        exact .born (wf.shaped opens.holds) opens.drawn member (.refl _)
  | @changed _ n k change holds suits applied =>
    have proper := (suits.fits within).proper applied (wf.regular.sound.proper holds).1
    have place := (Store.Change.keeps applied).place.path
    rw [Store.record?_replaced proper, place]
    split
    · rename_i here
      rw [here, holds]
      cases change with
      | decision world present =>
        have updated : k.updated = n.updated := by rw [(Store.Change.decision_cases applied).2]
        exact .aged ⟨.decision suits applied, updated⟩
      | _ => exact absurd here.symm passes
    · exact .refl _
  | @made _ folder n holds isFolder ready absent handmade =>
    rw [Store.record?_insertNode handmade.proper, if_neg (Ne.symm passes)]
    exact .refl _
  | @removed _ n holds below empty =>
    rw [Store.record?_eraseNode, if_neg (Ne.symm passes)]
    exact .refl _

theorem Moves.ages {may : Deed → Prop} (moves : Moves m scope may s t)
    (passes : ∀ deed, may deed → deed.Passes path) : m.Ages (s.record? path) (t.record? path) := by
  induction moves with
  | none s => exact .refl _
  | more permitted move rest ih =>
    exact (move.ages within wf (passes _ permitted)).trans (ih (move.wellFormed within wf))

end Moving

theorem Deed.passes_of_walks {deed : Deed} (walks : deed.Walks) (path : String) :
    deed.Passes path := by
  cases deed with
  | expanded folder => trivial
  | changed other change => cases change <;> trivial
  | made other => exact walks.elim
  | removed other => exact walks.elim

theorem Operation.Does.passes {seed : UInt64} {succeeded : Bool} {deed : Deed} (mutates : r.Mutates)
    (does : r.Does seed succeeded deed) (elsewhere : ¬ r.Targets path) : deed.Passes path := by
  have unmade : ∀ other, r.Makes other → other ≠ path := by
    rintro other makes rfl
    exact elsewhere (Or.inl makes)
  cases deed with
  | expanded folder => trivial
  | made other => exact unmade other does
  | removed other => exact does.elim
  | changed other change =>
    cases change with
    | markGenerated => exact does.elim
    | content upload time => exact unmade other (Replaces.makes does)
    | checksum text computedFor => cases r <;> first | exact does.elim | exact mutates.elim
    | decision world present => trivial
    | redecision world present => exact unmade other (Shows.makes does)

theorem Operation.Leaves.ages {succeeded : Bool} (leaves : r.Leaves m scope succeeded s t)
    (within : m.worlds.Within scope) (wf : s.WellFormed scope m.parameters) (mutates : r.Mutates)
    (elsewhere : ¬ r.Targets path) : m.Ages (s.record? path) (t.record? path) := by
  cases leaves with
  | kept moves => exact moves.ages within wf fun _ does => does.passes mutates elsewhere
  | @removed u n moves removes holds below empty =>
    rw [Store.record?_eraseNode, if_neg]
    · exact moves.ages within wf fun _ does => does.passes mutates elsewhere
    · rintro rfl
      exact elsewhere (Or.inr removes)

end SeedTree
