import Mathlib.Data.List.Lex
import SeedTree.Proofs.Path

/- Paths in depth-first order: a folder before all that lies below it, and what lies in a folder by
   the bytes of its names, each name with all that lies below it. -/
namespace SeedTree.Path

variable {top folder path other first second third : String} {depth : Nat}

def Precedes (first second : String) : Prop :=
  List.Lex (fun a b => Bytes.order (utf8 a) (utf8 b) = .lt) (components first) (components second)

def levels (top path : String) : Nat := (components path).length - (components top).length

structure Beneath (top : String) (depth : Nat) (path : String) : Prop where
  within : Within top path
  apart : path ≠ top
  near : levels top path ≤ depth

theorem precedes_irrefl (path : String) : ¬ Precedes path path := by
  refine List.lex_irrefl (fun name before => ?_) _
  have equal : Bytes.order (utf8 name) (utf8 name) = .eq := Std.ReflCmp.compare_self
  rw [equal] at before
  cases before

namespace Precedes

theorem trans (early : Precedes first second) (late : Precedes second third) :
    Precedes first third :=
  List.lex_trans (fun before after => Std.TransCmp.lt_trans before after) early late

theorem ne (precedes : Precedes first second) : first ≠ second := by
  rintro rfl
  exact precedes_irrefl _ precedes

theorem asymm (precedes : Precedes first second) : ¬ Precedes second first :=
  fun back => precedes_irrefl _ (precedes.trans back)

end Precedes

theorem precedes_below (normal : IsNormal top) (normal' : IsNormal path) (inside : Within top path)
    (apart : path ≠ top) : Precedes top path := by
  obtain ⟨more, along⟩ := inside
  unfold Precedes
  rw [← along]
  cases more with
  | nil =>
    rw [List.append_nil] at along
    exact absurd (normal.eq_of_components normal' along).symm apart
  | cons name more =>
    conv => lhs; rw [← List.append_nil (components top)]
    exact .append_left _ .nil _

theorem precedes_beside {name next : String} (normal : IsNormal folder)
    (named : IsName name) (named' : IsName next)
    (before : Bytes.order (utf8 name) (utf8 next) = .lt) (here : Within (join folder name) first)
    (there : Within (join folder next) second) : Precedes first second := by
  obtain ⟨more, along⟩ := here
  obtain ⟨rest, along'⟩ := there
  rw [components_join normal named, List.append_assoc] at along
  rw [components_join normal named', List.append_assoc] at along'
  unfold Precedes
  rw [← along, ← along']
  refine .append_left _ ?_ _
  exact .rel before

theorem eq_of_precedes {paths others : List String} (ordered : paths.Pairwise Precedes)
    (ordered' : others.Pairwise Precedes) (same : ∀ path, path ∈ paths ↔ path ∈ others) :
    paths = others := by
  have distinct := ordered.imp fun precedes => precedes.ne
  have distinct' := ordered'.imp fun precedes => precedes.ne
  refine List.Perm.eq_of_pairwise
    (fun _ _ _ _ early late => absurd late early.asymm) ordered ordered' ?_
  exact (List.perm_ext_iff_of_nodup distinct distinct').mpr same

theorem levels_self (top : String) : levels top top = 0 := Nat.sub_self _

theorem levels_join {name : String} (normal : IsNormal folder) (named : IsName name)
    (inside : Within top folder) : levels top (join folder name) = levels top folder + 1 := by
  have shorter := inside.length_le
  rw [levels, levels, components_join normal named, List.length_append, List.length_singleton]
  omega

theorem levels_trans (inside : Within top folder) (inside' : Within folder path) :
    levels top path = levels top folder + levels folder path := by
  have shorter := inside.length_le
  have shorter' := inside'.length_le
  unfold levels
  omega

theorem within_antisymm (normal : IsNormal first) (normal' : IsNormal second)
    (inside : Within first second) (inside' : Within second first) : first = second :=
  normal.eq_of_components normal'
    (inside.eq_of_length (Nat.le_antisymm inside.length_le inside'.length_le))

theorem within_join {name : String} (normal : IsNormal folder) (named : IsName name) :
    Within folder (join folder name) :=
  (within_join_iff normal normal named).mpr (Or.inl (within_refl folder))

theorem name_towards (normal : IsNormal folder) (normal' : IsNormal path)
    (inside : Within folder path)
    (apart : path ≠ folder) : ∃ name, IsName name ∧ Within (join folder name) path := by
  obtain ⟨more, along⟩ := inside
  cases more with
  | nil =>
    rw [List.append_nil] at along
    exact absurd (normal.eq_of_components normal' along).symm apart
  | cons name more =>
    have named : IsName name := normal'.components.1 name (by rw [← along]; simp)
    refine ⟨name, named, more, ?_⟩
    rw [components_join normal named, List.append_assoc]
    exact along

theorem levels_below {name : String} (normal : IsNormal folder) (named : IsName name)
    (inside : Within (join folder name) path) :
    levels folder path = levels (join folder name) path + 1 := by
  rw [levels_trans (within_join normal named) inside,
    levels_join normal named (within_refl folder), levels_self]
  omega

theorem not_beneath_zero (normal : IsNormal folder) (normal' : IsNormal path) :
    ¬ Beneath folder 0 path := by
  intro beneath
  obtain ⟨name, named, inside⟩ := name_towards normal normal' beneath.within beneath.apart
  have near := beneath.near
  rw [levels_below normal named inside] at near
  omega

end SeedTree.Path
