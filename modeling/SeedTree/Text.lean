import Std.Data.ExtTreeMap

/- Texts in the order of their code points, which is the order of their bytes in UTF-8, and maps
   keyed by texts. -/
namespace SeedTree

namespace Text

def charOrder (a b : Char) : Ordering :=
  if a.toNat < b.toNat then .lt else if a.toNat = b.toNat then .eq else .gt

theorem charOrder_isLE_iff (a b : Char) : (charOrder a b).isLE = true ↔ a.toNat ≤ b.toNat := by
  unfold charOrder
  split
  · simp [Ordering.isLE]; omega
  · split <;> simp [Ordering.isLE] <;> omega

theorem eq_of_toNat {a b : Char} (h : a.toNat = b.toNat) : a = b :=
  Char.ext (UInt32.toNat_inj.mp h)

instance : Std.TransCmp charOrder where
  eq_swap {a b} := by
    unfold charOrder
    by_cases h : a.toNat < b.toNat
    · simp [h, Nat.lt_asymm h, Nat.ne_of_gt h]
    · by_cases h2 : a.toNat = b.toNat
      · simp [h2]
      · simp [h, h2, show b.toNat < a.toNat by omega]
  isLE_trans {a b c} h1 h2 := by
    rw [charOrder_isLE_iff] at *
    omega

instance : Std.LawfulEqCmp charOrder where
  compare_self {a} := by simp [charOrder]
  eq_of_compare {a b} h := by
    unfold charOrder at h
    split at h
    · cases h
    · split at h
      · exact eq_of_toNat (by assumption)
      · cases h

def charsOrder : List Char → List Char → Ordering := List.compareLex charOrder

instance : Std.TransCmp charsOrder := inferInstanceAs (Std.TransCmp (List.compareLex charOrder))

instance : Std.LawfulEqCmp charsOrder :=
  inferInstanceAs (Std.LawfulEqCmp (List.compareLex charOrder))

def order (a b : String) : Ordering := charsOrder a.toList b.toList

theorem charsOrder_swap (a b : List Char) : charsOrder a b = (charsOrder b a).swap :=
  Std.OrientedCmp.eq_swap

theorem charsOrder_trans {a b c : List Char} (h1 : (charsOrder a b).isLE = true)
    (h2 : (charsOrder b c).isLE = true) : (charsOrder a c).isLE = true :=
  Std.TransCmp.isLE_trans h1 h2

theorem charsOrder_self (a : List Char) : charsOrder a a = .eq := Std.ReflCmp.compare_self

theorem eq_of_charsOrder {a b : List Char} (h : charsOrder a b = .eq) : a = b :=
  Std.LawfulEqCmp.eq_of_compare h

instance : Std.TransCmp order where
  eq_swap {a b} := charsOrder_swap a.toList b.toList
  isLE_trans h1 h2 := charsOrder_trans h1 h2

instance : Std.LawfulEqCmp order where
  compare_self {a} := charsOrder_self a.toList
  eq_of_compare h := String.toList_inj.mp (eq_of_charsOrder h)

/-- The pieces between separators; one piece more than there are separators. -/
def splitOn (separator : Char) : List Char → List (List Char)
  | [] => [[]]
  | c :: cs =>
    if c = separator then [] :: splitOn separator cs
    else match splitOn separator cs with
      | [] => [[c]]
      | piece :: more => (c :: piece) :: more

def splitFirst? (separator : Char) : List Char → Option (List Char × List Char)
  | [] => none
  | c :: cs =>
    if c = separator then some ([], cs)
    else (splitFirst? separator cs).map fun (before, after) => (c :: before, after)

def splitLast? (separator : Char) (cs : List Char) : Option (List Char × List Char) :=
  (splitFirst? separator cs.reverse).map fun (after, before) => (before.reverse, after.reverse)

def joinWith (separator : List Char) : List (List Char) → List Char
  | [] => []
  | [only] => only
  | first :: more => first ++ separator ++ joinWith separator more

def lowerAscii (s : String) : String := String.ofList (s.toList.map Char.toLower)

end Text

abbrev NameMap (α : Type) := Std.ExtTreeMap String α Text.order

namespace NameMap

def ofList {α : Type} (entries : List (String × α)) : NameMap α :=
  entries.foldl (fun m entry => m.insert entry.1 entry.2) ∅

def names {α : Type} (m : NameMap α) : List String := m.toList.map Prod.fst

def map {α β : Type} (f : String → α → β) (m : NameMap α) : NameMap β :=
  ofList (m.toList.map fun entry => (entry.1, f entry.1 entry.2))

end NameMap

end SeedTree
