import SeedTree.Number.Decimal
import SeedTree.Text

/- Texts that differ at most in the case of their ASCII letters. What does not tell capitals from
   small letters finds the same in both. -/
namespace SeedTree

namespace Text

theorem toLower_or (c : Char) : c.toLower = c ∨ ∃ n < 26, c = Char.ofNat (65 + n) := by
  by_cases capital : c.val ≥ 'A'.val ∧ c.val ≤ 'Z'.val
  · obtain ⟨least, most⟩ := capital
    have least : 65 ≤ c.toNat := least
    have most : c.toNat ≤ 90 := most
    refine Or.inr ⟨c.toNat - 65, by omega, ?_⟩
    rw [Nat.add_sub_cancel' least, Char.ofNat_toNat]
  · exact Or.inl (dif_neg capital)

/-- What is the same for each letter and its capital is the same for all characters and their small
forms. -/
theorem apply_toLower {α : Type} {f : Char → α}
    (letters : ∀ n < 26, f (Char.ofNat (65 + n)).toLower = f (Char.ofNat (65 + n))) (c : Char) :
    f c.toLower = f c := by
  rcases toLower_or c with same | ⟨n, small, rfl⟩
  · rw [same]
  · exact letters n small

theorem eq_toLower {sign : Char}
    (caseless : ∀ n < 26, decide ((Char.ofNat (65 + n)).toLower = sign) =
      decide (Char.ofNat (65 + n) = sign)) (c : Char) :
    c.toLower = sign ↔ c = sign :=
  decide_eq_decide.mp (apply_toLower (f := fun c => decide (c = sign)) caseless c)

/-- The same but for the case of letters. -/
def SameLetters (cs ds : List Char) : Prop := cs.map Char.toLower = ds.map Char.toLower

namespace SameLetters

variable {cs ds : List Char} {p : Char → Bool} {separator : Char}

theorem refl (cs : List Char) : SameLetters cs cs := rfl

theorem symm (same : SameLetters cs ds) : SameLetters ds cs := Eq.symm same

theorem isEmpty_eq (same : SameLetters cs ds) : cs.isEmpty = ds.isEmpty := by
  have lengths := congrArg List.isEmpty same
  rwa [List.isEmpty_map, List.isEmpty_map] at lengths

theorem all_eq (same : SameLetters cs ds) (blind : ∀ c, p c.toLower = p c) :
    cs.all p = ds.all p := by
  have blind : p ∘ Char.toLower = p := funext blind
  rw [← blind, ← List.all_map, same, List.all_map]

theorem any_eq (same : SameLetters cs ds) (blind : ∀ c, p c.toLower = p c) :
    cs.any p = ds.any p := by
  have blind : p ∘ Char.toLower = p := funext blind
  rw [← blind, ← List.any_map, same, List.any_map]

theorem head?_eq {α : Type} {f : Char → α} (same : SameLetters cs ds)
    (blind : ∀ c, f c.toLower = f c) : cs.head?.map f = ds.head?.map f := by
  have blind : f ∘ Char.toLower = f := funext blind
  have heads := congrArg List.head? same
  rw [List.head?_map, List.head?_map] at heads
  rw [← blind, ← Option.map_map, ← Option.map_map, heads]

theorem dropWhile (same : SameLetters cs ds) (blind : ∀ c, p c.toLower = p c) :
    SameLetters (cs.dropWhile p) (ds.dropWhile p) := by
  have blind : p ∘ Char.toLower = p := funext blind
  rw [SameLetters, ← blind, ← List.dropWhile_map, same, List.dropWhile_map]

theorem splitFirst? (same : SameLetters cs ds)
    (blind : ∀ c : Char, c.toLower = separator ↔ c = separator) :
    Option.Rel (fun x y => SameLetters x.1 y.1 ∧ SameLetters x.2 y.2)
      (Text.splitFirst? separator cs)
      (Text.splitFirst? separator ds) := by
  induction cs generalizing ds with
  | nil =>
    obtain rfl : ds = [] := by simpa [SameLetters] using same.symm
    exact .none
  | cons c cs ih =>
    cases ds with
    | nil => cases same
    | cons d ds =>
      obtain ⟨first, rest⟩ := List.cons.inj same
      have alike : c = separator ↔ d = separator := by rw [← blind c, ← blind d, first]
      rw [Text.splitFirst?, Text.splitFirst?]
      by_cases here : c = separator
      · rw [if_pos here, if_pos (alike.mp here)]
        exact .some ⟨rfl, rest⟩
      · rw [if_neg here, if_neg fun there => here (alike.mpr there)]
        have later := ih rest
        generalize Text.splitFirst? separator cs = left,
          Text.splitFirst? separator ds = right at later ⊢
        cases later with
        | none => exact .none
        | some parts => exact .some ⟨List.cons_eq_cons.mpr ⟨first, parts.1⟩, parts.2⟩

end SameLetters

end Text

namespace Decimal

theorem isDigit_toLower (c : Char) : isDigit c.toLower = isDigit c :=
    Text.apply_toLower (by decide) c

theorem map_toLower_of_digits {cs : List Char} (digits : cs.all isDigit = true) :
    cs.map Char.toLower = cs := by
  refine (List.map_congr_left fun c member => ?_).trans (List.map_id _)
  have digit := List.all_eq_true.mp digits c member
  rcases Text.toLower_or c with same | ⟨n, small, rfl⟩
  · exact same
  · have letter : ∀ n < 26, isDigit (Char.ofNat (65 + n)) = false := by decide
    rw [letter n small] at digit
    cases digit

end Decimal

end SeedTree
