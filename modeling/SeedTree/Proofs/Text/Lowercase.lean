import SeedTree.Text.Lowercase

/- Lower case is as low as it gets: no small letter of a capital is a capital itself, so a text in
   lower case stays as it is. -/
namespace SeedTree.Text

namespace CaseRun

def low (run : CaseRun) : Nat := (run.first + run.distance).toNat

def high (run : CaseRun) : Nat := (run.last + run.distance).toNat

def apart (run other : CaseRun) : Bool :=
  Nat.blt run.high other.first || Nat.blt other.last run.low ||
    (List.range ((run.last - run.first) / run.stride + 1)).all fun i =>
      !other.covers ((run.first + i * run.stride : Nat) + run.distance).toNat

theorem not_covers_of_apart {run other : CaseRun} (disjoint : run.apart other = true) {n : Nat}
    (covers : run.covers n = true) : other.covers (n + run.distance).toNat = false := by
  simp only [CaseRun.covers, Bool.and_eq_true, decide_eq_true_eq] at covers
  obtain ⟨⟨first, last⟩, even⟩ := covers
  have above : run.low ≤ (n + run.distance).toNat := by
    unfold low
    omega
  have below : (n + run.distance).toNat ≤ run.high := by
    unfold high
    omega
  simp only [apart, Bool.or_eq_true, Nat.blt_eq] at disjoint
  rcases disjoint with (before | after) | each
  · have outside : ¬ other.first ≤ (n + run.distance).toNat := by omega
    simp [CaseRun.covers, outside]
  · have outside : ¬ (n + run.distance).toNat ≤ other.last := by omega
    simp [CaseRun.covers, outside]
  · have index : (n - run.first) / run.stride < (run.last - run.first) / run.stride + 1 :=
      Nat.lt_succ_of_le (Nat.div_le_div_right (by omega))
    have known := List.all_eq_true.mp each _ (List.mem_range.mpr index)
    have place : run.first + (n - run.first) / run.stride * run.stride = n := by
      rw [Nat.div_mul_cancel (Nat.dvd_of_mod_eq_zero even)]
      omega
    rw [place] at known
    simpa using known

end CaseRun

/-- The one capital whose small form is two characters. -/
def dottedI : CaseRun := ⟨0x130, 0x130, 1, 0⟩

theorem apart_capitalRuns :
    capitalRuns.all (fun run => (dottedI :: capitalRuns).all run.apart) = true := by decide +kernel

structure IsSmall (c : Char) : Prop where
  plain : c.toNat ≠ 0x3A3 ∧ c.toNat ≠ 0x130
  small : smallLetter c = c

theorem smallLetter_of_uncovered {c : Char}
    (uncovered : ∀ run ∈ capitalRuns, run.covers c.toNat = false) : smallLetter c = c := by
  have none : capitalRuns.find? (·.covers c.toNat) = none :=
    List.find?_eq_none.mpr fun run member => by simp [uncovered run member]
  rw [smallLetter, none]

theorem isSmall_of_uncovered {c : Char}
    (uncovered : ∀ run ∈ dottedI :: capitalRuns, run.covers c.toNat = false) : IsSmall c := by
  obtain ⟨dotless, uncovered⟩ := List.forall_mem_cons.mp uncovered
  refine ⟨⟨fun sigma => ?_, fun dotted => ?_⟩, smallLetter_of_uncovered uncovered⟩
  · have covered : capitalRuns.any (·.covers 0x3A3) = true := by decide +kernel
    obtain ⟨run, member, covers⟩ := List.any_eq_true.mp covered
    rw [← sigma, uncovered run member] at covers
    cases covers
  · rw [dotted] at dotless
    cases dotless

theorem isSmall_smallLetter {c : Char} (plain : c.toNat ≠ 0x3A3 ∧ c.toNat ≠ 0x130) :
    IsSmall (smallLetter c) := by
  cases found : capitalRuns.find? (·.covers c.toNat) with
  | none =>
    have same : smallLetter c = c := by rw [smallLetter, found]
    rw [same]
    exact ⟨plain, same⟩
  | some run =>
    have apart :=
      List.all_eq_true.mp
        (List.all_eq_true.mp apart_capitalRuns run (List.mem_of_find?_eq_some found))
    have covers := List.find?_some found
    have small : smallLetter c = Char.ofNat (c.toNat + run.distance).toNat := by
      rw [smallLetter, found]
    rw [small]
    refine isSmall_of_uncovered fun other member => ?_
    have clear := CaseRun.not_covers_of_apart (apart other member) covers
    by_cases valid : (c.toNat + run.distance).toNat.isValidChar
    · have code : (Char.ofNat (c.toNat + run.distance).toNat).toNat =
          (c.toNat + run.distance).toNat := by
        rw [Char.ofNat, dif_pos valid]
        rfl
      rw [code]
      exact clear
    · have code : (Char.ofNat (c.toNat + run.distance).toNat).toNat = 0 := by
        rw [Char.ofNat, dif_neg valid]
        rfl
      rw [code]
      have nul : (dottedI :: capitalRuns).all (fun run => !run.covers 0) = true := by decide +kernel
      simpa using List.all_eq_true.mp nul other member

theorem isSmall_special : ∀ c ∈ ['ς', 'σ', 'i', '\u0307'], IsSmall c := by
  have clear : ['ς', 'σ', 'i', '\u0307'].all (fun c => (dottedI :: capitalRuns).all fun run =>
      !run.covers c.toNat) = true := by decide +kernel
  refine fun c member => isSmall_of_uncovered fun run among => ?_
  simpa using List.all_eq_true.mp (List.all_eq_true.mp clear c member) run among

theorem isSmall_lowerFrom (before cs : List Char) : ∀ c ∈ lowerFrom before cs, IsSmall c := by
  induction cs generalizing before with
  | nil => exact fun c member => absurd member List.not_mem_nil
  | cons c cs ih =>
    intro d member
    rw [lowerFrom] at member
    rcases List.mem_append.mp member with here | later
    · split at here
      · refine isSmall_special d ?_
        split at here <;> simp_all
      · rename_i sigma
        split at here
        · refine isSmall_special d ?_
          simp_all
        · rename_i dotted
          rw [List.mem_singleton.mp here]
          exact isSmall_smallLetter ⟨sigma, dotted⟩
    · exact ih (c :: before) d later

theorem lowerFrom_of_small (before : List Char) {cs : List Char} (small : ∀ c ∈ cs, IsSmall c) :
    lowerFrom before cs = cs := by
  induction cs generalizing before with
  | nil => rfl
  | cons c cs ih =>
    obtain ⟨first, rest⟩ := List.forall_mem_cons.mp small
    rw [lowerFrom, if_neg first.plain.1, if_neg first.plain.2, first.small, ih _ rest]
    rfl

theorem lowercase_lowercase (s : String) : lowercase (lowercase s) = lowercase s := by
  rw [lowercase, lowercase, String.toList_ofList, lowerFrom_of_small _ (isSmall_lowerFrom _ _)]

end SeedTree.Text
