import SeedTree.Proofs.Children.Ending
import SeedTree.Proofs.Stream.Uniform

/- Room for a folder's entries is made before they are drawn, for as many as the sum of both counts
   in 32 bits. The sum is exact for every draw just where the greatest counts add up to less than
   2^32; nothing asks that of the parameters. A draw that ends has had room for all its entries,
   since there are too few names for more. -/
namespace SeedTree

namespace Draw

variable {lo hi v : UInt32}

theorem exists_word_of_between (least : lo ≤ v) (most : v ≤ hi) :
    ∃ w, ∀ ws : Words, ∀ i, (lo < hi → ws i = w) →
    Reaches (fun fuel => range fuel lo hi) ws i v (i + if lo < hi then 1 else 0) := by
  by_cases apart : lo < hi
  · obtain ⟨share, some, each⟩ := (uniform_rangeRound apart).shared
    obtain ⟨w, answered⟩ :=
      Set.nonempty_of_ncard_ne_zero ((each v ⟨least, most⟩).trans_ne (Nat.ne_of_gt some))
    refine ⟨w, fun ws i here => (reaches_range_iff apart).mpr
      ⟨0, by rw [if_pos apart], firstAt_zero.mpr ?_⟩⟩
    rw [Nat.add_zero, here apart]
    exact answered
  · have single := UInt32.not_lt.mp apart
    obtain rfl : v = lo := UInt32.le_antisymm (UInt32.le_trans most single) least
    refine ⟨0, fun ws i _ => ?_⟩
    simp only [range, if_pos single, if_neg apart]
    exact reaches_free rfl

end Draw

namespace Children

open Draw

variable {p : Parameters} {depth : UInt32} {counts : UInt32 × UInt32}

/-- For how many entries room is made: the sum of the counts in 32 bits. -/
def room (counts : UInt32 × UInt32) : UInt32 := counts.1 + counts.2

theorem room_eq_iff : (room counts).toNat = counts.1.toNat + counts.2.toNat ↔
    counts.1.toNat + counts.2.toNat < twoTo 32 := by
  have power : twoTo 32 = 2 ^ 32 := rfl
  rw [room, UInt32.toNat_add, power]
  omega

theorem exists_words_of_greatest (accepted : p.check = .ok ()) (shallow : depth < p.maxDepth) :
    ∃ ws j, Reaches (fun fuel => drawCounts fuel p depth) ws 0 (p.maxFolders, p.maxFiles) j := by
  obtain ⟨w, folders⟩ :=
    exists_word_of_between (Parameters.folders_ordered accepted) (UInt32.le_refl _)
  obtain ⟨w', files⟩ :=
    exists_word_of_between (Parameters.files_ordered accepted) (UInt32.le_refl _)
  let step := if p.minFolders < p.maxFolders then 1 else 0
  let ws : Words := fun i => if i < step then w else w'
  have first := folders ws 0 fun apart => if_pos (by simp [step, apart])
  have second := files ws step fun _ => if_neg (Nat.lt_irrefl step)
  rw [Nat.zero_add] at first
  refine ⟨ws, step + if p.minFiles < p.maxFiles then 1 else 0, ?_⟩
  simp only [drawCounts, if_neg (UInt32.not_le.mpr shallow)]
  exact (reaches_bind (steady_range _ _) fun n => steady_map (steady_range _ _) (Prod.mk n)).mpr
    ⟨p.maxFolders, step, first, second.map (Prod.mk p.maxFolders)⟩

theorem room_exact_of_bounded (counted : Counted p depth counts)
    (bounded : p.maxDepth ≤ depth ∨ p.maxFolders.toNat + p.maxFiles.toNat < twoTo 32) :
    (room counts).toNat = counts.1.toNat + counts.2.toNat := by
  have files := UInt32.le_iff_toNat_le.mp counted.files.2
  have size := p.maxFiles.toNat_lt
  have power : twoTo 32 = 2 ^ 32 := rfl
  refine room_eq_iff.mpr ?_
  by_cases deep : p.maxDepth ≤ depth
  · have none : counts.1.toNat = 0 := congrArg UInt32.toNat (counted.none_below deep)
    omega
  · have folders := UInt32.le_iff_toNat_le.mp (counted.folders (UInt32.not_le.mp deep)).2
    have sum := bounded.resolve_left deep
    omega

/-- Room is made for every entry of all draws just where there are no folders or the greatest counts
add up to less than 2^32. Where even the smallest counts do not, no draw makes enough room. Room was
made for all entries of a draw that ends. -/
theorem room_made (accepted : p.check = .ok ()) (depth : UInt32) :
    ((∀ fuel ws i counts j, drawCounts fuel p depth ws i = some (counts, j) →
        (room counts).toNat = counts.1.toNat + counts.2.toNat) ↔
      p.maxDepth ≤ depth ∨ p.maxFolders.toNat + p.maxFiles.toNat < twoTo 32) ∧
    (depth < p.maxDepth → twoTo 32 ≤ p.minFolders.toNat + p.minFiles.toNat →
      ∀ fuel ws i counts j, drawCounts fuel p depth ws i = some (counts, j) →
        (room counts).toNat < counts.1.toNat + counts.2.toNat) ∧
    ∀ fuel ws i entries j, draw fuel p depth ws i = some (entries, j) →
      ∃ counts, (∃ k, drawCounts fuel p depth ws i = some (counts, k)) ∧
        (room counts).toNat = entries.length := by
  refine ⟨⟨fun exact => ?_, fun bounded fuel ws i counts j drawn => ?_⟩,
    fun shallow many fuel ws i counts j drawn => ?_,
    fun fuel ws i entries j drawn => ?_⟩
  · by_cases deep : p.maxDepth ≤ depth
    · exact Or.inl deep
    · obtain ⟨ws, j, fuel, drawn⟩ := exists_words_of_greatest accepted (UInt32.not_le.mp deep)
      exact Or.inr (room_eq_iff.mp (exact fuel ws 0 _ j drawn))
  · exact room_exact_of_bounded (always_drawCounts_within accepted ws i counts j drawn) bounded
  · have counted := always_drawCounts_within accepted ws i counts j drawn
    have folders := UInt32.le_iff_toNat_le.mp (counted.folders shallow).1
    have files := UInt32.le_iff_toNat_le.mp counted.files.1
    have bound := (room counts).toNat_lt
    have power : twoTo 32 = 2 ^ 32 := rfl
    omega
  · obtain ⟨counts, counted, total, folders, files⟩ := counts_of_drawn drawn
    have power : twoTo 32 = 2 ^ 32 := rfl
    exact ⟨counts, counted, (room_eq_iff.mpr (by omega)).trans total.symm⟩

def overcounted : Parameters :=
  { minFolders := 1, maxFolders := 1, minFiles := 0xFFFFFFFF, maxFiles := 0xFFFFFFFF }

theorem overcounted_without_room : overcounted.check = .ok () ∧
    drawCounts 0 overcounted 0 (stream overcounted "/") 0 = some ((1, 0xFFFFFFFF), 0) ∧
      room (1, 0xFFFFFFFF) = 0 ∧
    (room (1, 0xFFFFFFFF)).toNat < (1 : UInt32).toNat + (0xFFFFFFFF : UInt32).toNat := by
  have accepted : overcounted.check = .ok () := by decide +kernel
  have drawn : drawCounts 0 overcounted 0 (stream overcounted "/") 0 =
    some ((1, 0xFFFFFFFF), 0) := rfl
  exact ⟨accepted, drawn, rfl, (room_made accepted 0).2.1 (by decide) (by decide) 0 _ 0 _ 0 drawn⟩

end Children

end SeedTree
