import Mathlib.Data.List.Pairwise
import SeedTree.Log.Filter

/- What a filter lets through. Its directives are about different targets; the longest that fits a
   target governs it, so each directive governs the target it names, and a filter is silent just if
   all its limits are zero. -/
namespace SeedTree

namespace Directive

theorem weight_le_of_fits {d e : Directive} {target : String} (named : d.target = some target)
    (fits : e.fits target = true) :
    e.weight ≤ d.weight ∧ (e.weight = d.weight → e.target = d.target) := by
  unfold weight
  unfold Directive.fits at fits
  rw [named]
  cases other : e.target with
  | none => exact ⟨Nat.zero_le _, fun same => absurd same (by simp)⟩
  | some start =>
    rw [other] at fits
    have first : start.toList <+: target.toList := List.isPrefixOf_iff_prefix.mp fits
    have lengths := first.length_le
    rw [String.length_toList, String.length_toList] at lengths
    refine ⟨Nat.succ_le_succ lengths, fun same => ?_⟩
    have whole :=
      first.eq_of_length
        (by rw [String.length_toList, String.length_toList]; exact Nat.succ.inj same)
    rw [String.toList_inj.mp whole]

end Directive

namespace LogFilter

variable {ds : List Directive} {d e : Directive} {f g : LogFilter} {target : String}

theorem heaviest?_eq_none_iff : heaviest? ds = none ↔ ds = [] := by
  cases ds with
  | nil => simp [heaviest?]
  | cons d ds =>
    simp only [heaviest?, reduceCtorEq, iff_false]
    split
    · split <;> simp
    · simp

theorem heaviest?_spec (found : heaviest? ds = some d) :
    d ∈ ds ∧ ∀ e ∈ ds, e.weight ≤ d.weight := by
  induction ds generalizing d with
  | nil => cases found
  | cons first ds ih =>
    rw [heaviest?] at found
    cases later : heaviest? ds with
    | none =>
      rw [later] at found
      cases found
      rw [heaviest?_eq_none_iff.mp later]
      simp
    | some other =>
      obtain ⟨member, most⟩ := ih later
      rw [later] at found
      dsimp only at found
      split at found
      · rename_i heavier
        cases found
        refine ⟨List.mem_cons_self, fun e among => ?_⟩
        rcases List.mem_cons.mp among with rfl | among
        · exact Nat.le_refl _
        · exact Nat.le_trans (most e among) heavier
      · rename_i lighter
        cases found
        refine ⟨List.mem_cons_of_mem _ member, fun e among => ?_⟩
        rcases List.mem_cons.mp among with rfl | among
        · exact Nat.le_of_lt (Nat.lt_of_not_le lighter)
        · exact most e among

def Distinct (f : LogFilter) : Prop := f.directives.Pairwise fun d e => d.target ≠ e.target

theorem distinct_silent : silent.Distinct := List.Pairwise.nil

theorem distinct_add (distinct : f.Distinct) (d : Directive) : (f.add d).Distinct := by
  refine List.Pairwise.cons (fun e member => ?_) (distinct.filter _)
  have apart := (List.mem_filter.mp member).2
  exact fun same => of_decide_eq_true apart same.symm

theorem distinct_foldl_add (distinct : f.Distinct) (ds : List Directive) :
    (ds.foldl add f).Distinct := by
  induction ds generalizing f with
  | nil => exact distinct
  | cons d ds ih => exact ih (distinct_add distinct d)

theorem mem_add : e ∈ (f.add d).directives ↔ e = d ∨ e ∈ f.directives ∧ e.target ≠ d.target := by
  simp [add]

theorem mem_foldl_add {extra : Directive → Prop}
    (within : ∀ d ∈ f.directives, d ∈ g.directives ∨ extra d)
    (ds : List Directive) : ∀ d ∈ (ds.foldl add f).directives, d ∈
    (ds.foldl add g).directives ∨ extra d := by
  induction ds generalizing f g with
  | nil => exact within
  | cons d ds ih =>
    refine ih fun e member => ?_
    rcases mem_add.mp member with rfl | ⟨before, apart⟩
    · exact Or.inl (mem_add.mpr (Or.inl rfl))
    · exact (within e before).imp_left fun also => mem_add.mpr (Or.inr ⟨also, apart⟩)

theorem mem_of_mem_foldl_add (member : d ∈ (ds.foldl add f).directives) :
    d ∈ f.directives ∨ d ∈ ds := by
  induction ds generalizing f with
  | nil => exact Or.inl member
  | cons first ds ih =>
    rcases ih member with before | later
    · rcases mem_add.mp before with rfl | ⟨before, _⟩
      · exact Or.inr List.mem_cons_self
      · exact Or.inl before
    · exact Or.inr (List.mem_cons_of_mem _ later)

theorem Distinct.eq_of_target (distinct : f.Distinct) (member : d ∈ f.directives)
    (member' : e ∈ f.directives) (same : d.target = e.target) : d = e := by
  have symmetric : Std.Symm fun d e : Directive => d.target ≠ e.target := ⟨fun _ _ => Ne.symm⟩
  exact Decidable.byContradiction fun apart =>
    List.Pairwise.forall distinct member member' apart same

theorem governing?_of_mem (distinct : f.Distinct) (member : d ∈ f.directives)
    (named : d.target = some target) : f.governing? target = some d := by
  have fits : d.fits target = true := by
    rw [Directive.fits, named]
    exact List.isPrefixOf_iff_prefix.mpr List.prefix_rfl
  have among : d ∈ f.directives.filter (·.fits target) := List.mem_filter.mpr ⟨member, fits⟩
  cases found : f.governing? target with
  | none => exact absurd (heaviest?_eq_none_iff.mp found) (List.ne_nil_of_mem among)
  | some e =>
    obtain ⟨among', most⟩ := heaviest?_spec found
    obtain ⟨member', fits'⟩ := List.mem_filter.mp among'
    obtain ⟨least, single⟩ := Directive.weight_le_of_fits named fits'
    rw [distinct.eq_of_target member' member (single (Nat.le_antisymm least (most d among)))]

theorem lets_nothing_iff (distinct : f.Distinct)
    (still : ∀ d ∈ f.directives, d.target = none → d.limit = 0) :
    (∀ target level, f.lets target level = false) ↔ ∀ d ∈ f.directives, d.limit = 0 := by
  constructor
  · intro silent d member
    cases named : d.target with
    | none => exact still d member named
    | some target =>
      have shut := silent target .error
      rw [lets, governing?_of_mem distinct member named] at shut
      have closed : ¬ 1 ≤ d.limit := of_decide_eq_false shut
      omega
  · intro zero target level
    rw [lets]
    split
    · rename_i d found
      have member := (List.mem_filter.mp (heaviest?_spec found).1).1
      rw [zero d member]
      cases level <;> rfl
    · rfl

end LogFilter

end SeedTree
