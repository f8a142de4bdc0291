import Mathlib.Algebra.BigOperators.Group.Finset.Basic
import Mathlib.Data.Set.Card
import Mathlib.Order.Interval.Finset.Nat
import SeedTree.Proofs.Stream.Rejection

/- Uniform draws. The product of a word and a width falls into the zone for the same number of words
   at each of the width's values, and these are at least half of all words; a draw answers what its
   first accepted word answers. -/
namespace SeedTree

namespace Draw

/-- A round that answers nothing but the values, each from as many words as any other, and that
rejects at most half of all words. -/
structure Uniform {ω α : Type} (round : ω → Option α) (values : Set α) : Prop where
  within : ∀ w v, round w = some v → v ∈ values
  shared : ∃ share, 0 < share ∧ ∀ v ∈ values, {w | round w = some v}.ncard = share
  most : Nat.card ω ≤ 2 * {w | (round w).isSome}.ncard

section Window

variable {bits r word v : Nat}

/-- The first of the words whose product with the width has the value as its high half. -/
def firstWord (bits r v : Nat) : Nat := (v * twoTo bits + r - 1) / r

/-- For how many words the low half is in the zone. -/
def share (bits r : Nat) : Nat := twoTo (leadingZeros bits r)

theorem width_mul_share (positive : 0 < r) (small : r < twoTo bits) :
    r * share bits r < twoTo bits ∧ twoTo bits ≤ 2 * (r * share bits r) := by
  have nonzero : r ≠ 0 := Nat.ne_of_gt positive
  have least : twoTo r.log2 ≤ r := Nat.log2_self_le nonzero
  have most : r < twoTo (r.log2 + 1) := Nat.lt_log2_self
  have inside : r.log2 < bits := (Nat.log2_lt nonzero).mpr small
  have top : bits = r.log2 + 1 + leadingZeros bits r := by
    rw [leadingZeros, if_neg nonzero]
    omega
  have whole : twoTo bits = twoTo (r.log2 + 1) * share bits r := by
    rw [share, ← twoTo_add, ← top]
  have double : twoTo (r.log2 + 1) = 2 * twoTo r.log2 := (twoTo_add _ _).trans (Nat.mul_comm _ _)
  have some : 0 < share bits r := twoTo_pos _
  refine ⟨?_, ?_⟩
  · rw [whole]
    exact Nat.mul_lt_mul_of_pos_right most some
  · rw [whole, double, Nat.mul_assoc]
    exact Nat.mul_le_mul_left 2 (Nat.mul_le_mul_right _ least)

theorem le_zone_iff (positive : 0 < r) (small : r < twoTo bits) (low : Nat) :
    low ≤ zone bits r ↔ low < r * share bits r := by
  obtain ⟨below, _⟩ := width_mul_share positive small
  have some : 0 < r * share bits r := Nat.mul_pos positive (twoTo_pos _)
  have top : r * share bits r + twoTo bits - 1 = r * share bits r - 1 + twoTo bits := by omega
  have zone : zone bits r = r * share bits r - 1 := by
    change (r * share bits r % twoTo bits + twoTo bits - 1) % twoTo bits = _
    rw [Nat.mod_eq_of_lt below, top, Nat.add_mod_right, Nat.mod_eq_of_lt (by omega)]
  omega

theorem le_mul_iff (positive : 0 < r) (n word : Nat) : (n + r - 1) / r ≤ word ↔ n ≤ word * r := by
  rw [Nat.div_le_iff_le_mul_add_pred positive, Nat.mul_comm]
  omega

theorem lastWord_eq (positive : 0 < r) : firstWord bits r v + share bits r =
    (v * twoTo bits + r * share bits r + r - 1) / r := by
  have regrouped : v * twoTo bits + r * share bits r + r - 1 =
      v * twoTo bits + r - 1 + r * share bits r := by
    omega
  rw [firstWord, regrouped, Nat.add_mul_div_left _ _ positive]

theorem accept?_eq_some_iff (positive : 0 < r) (small : r < twoTo bits) :
    accept? bits r word = some v ↔ firstWord bits r v ≤ word ∧
      word < firstWord bits r v + share bits r := by
  obtain ⟨below, _⟩ := width_mul_share positive small
  rw [lastWord_eq positive, ← Nat.not_le, firstWord, le_mul_iff positive,
    le_mul_iff positive, Nat.not_le]
  simp only [accept?, le_zone_iff positive small]
  have parts := Nat.div_add_mod (word * r) (twoTo bits)
  have bound := Nat.mod_lt (word * r) (twoTo_pos bits)
  constructor
  · intro accepted
    split at accepted
    · cases accepted
      rw [Nat.mul_comm (word * r / twoTo bits)]
      omega
    · cases accepted
  · rintro ⟨least, most⟩
    obtain ⟨low, product⟩ := Nat.exists_eq_add_of_le least
    have inside : low < r * share bits r := by omega
    have high : (v * twoTo bits + low) / twoTo bits = v := by
      rw [Nat.mul_comm, Nat.mul_add_div (twoTo_pos bits), Nat.div_eq_of_lt (by omega), Nat.add_zero]
    have rest : (v * twoTo bits + low) % twoTo bits = low := by
      rw [Nat.mul_comm, Nat.mul_add_mod, Nat.mod_eq_of_lt (by omega)]
    rw [product, high, rest, if_pos inside]

theorem lastWord_le (positive : 0 < r) (small : r < twoTo bits) (inside : v < r) :
    firstWord bits r v + share bits r ≤ twoTo bits := by
  obtain ⟨below, _⟩ := width_mul_share positive small
  rw [lastWord_eq positive, le_mul_iff positive]
  calc v * twoTo bits + r * share bits r
      ≤ v * twoTo bits + twoTo bits := Nat.add_le_add_left (Nat.le_of_lt below) _
    _ = (v + 1) * twoTo bits := (Nat.succ_mul ..).symm
    _ ≤ r * twoTo bits := Nat.mul_le_mul_right _ inside
    _ = twoTo bits * r := Nat.mul_comm ..

end Window

section Counting

variable {bits r v : Nat}

theorem card_answering (positive : 0 < r) (small : r < twoTo bits) (inside : v < r) :
    ((Finset.range (twoTo bits)).filter (accept? bits r · = some v)).card = share bits r := by
  have window : (Finset.range (twoTo bits)).filter (accept? bits r · = some v) =
      Finset.Ico (firstWord bits r v) (firstWord bits r v + share bits r) := by
    have last := lastWord_le positive small inside
    ext word
    rw [Finset.mem_filter, Finset.mem_range, accept?_eq_some_iff positive small, Finset.mem_Ico]
    omega
  rw [window, Nat.card_Ico, Nat.add_sub_cancel_left]

theorem card_accepted (positive : 0 < r) (small : r < twoTo bits) :
    ((Finset.range (twoTo bits)).filter fun word => (accept? bits r word).isSome).card =
      r * share bits r := by
  have answered : ∀ word ∈ (Finset.range (twoTo bits)).filter fun word =>
    (accept? bits r word).isSome,
      (accept? bits r word).getD 0 ∈ Finset.range r := by
    intro word member
    obtain ⟨among, accepted⟩ := Finset.mem_filter.mp member
    obtain ⟨v, found⟩ := Option.isSome_iff_exists.mp accepted
    rw [found, Option.getD_some]
    exact Finset.mem_range.mpr (accept?_lt (Finset.mem_range.mp among) positive found)
  have each : ∀ v ∈ Finset.range r,
    (((Finset.range (twoTo bits)).filter fun word => (accept? bits r word).isSome).filter
      fun word => (accept? bits r word).getD 0 = v).card = share bits r := by
    intro v inside
    rw [← card_answering positive small (Finset.mem_range.mp inside), Finset.filter_filter]
    refine congrArg Finset.card (Finset.filter_congr fun word _ => ?_)
    cases accept? bits r word <;> simp
  rw [Finset.card_eq_sum_card_fiberwise answered, Finset.sum_const_nat each, Finset.card_range]

/-- Words that are told apart by their numbers, which are all the numbers below a bound. -/
structure Numbered {ω : Type} (toNat : ω → Nat) (size : Nat) : Prop where
  inj : Function.Injective toNat
  onto : ∀ n, (∃ w, toNat w = n) ↔ n < size

variable {ω : Type} {toNat : ω → Nat} {size : Nat}

theorem Numbered.ncard (numbered : Numbered toNat size) (p : Nat → Prop) [DecidablePred p] :
    {w | p (toNat w)}.ncard = ((Finset.range size).filter p).card := by
  rw [← Set.ncard_image_of_injective _ numbered.inj, ← Set.ncard_coe_finset]
  congr 1
  ext n
  rw [Set.mem_image, Finset.coe_filter, Set.mem_ofPred_eq, Finset.mem_range, ← numbered.onto]
  constructor
  · rintro ⟨w, holds, rfl⟩
    exact ⟨⟨w, rfl⟩, holds⟩
  · rintro ⟨⟨w, rfl⟩, holds⟩
    exact ⟨w, holds, rfl⟩

theorem Numbered.card (numbered : Numbered toNat size) : Nat.card ω = size := by
  have all := numbered.ncard fun _ => True
  rwa [Finset.filter_true, Finset.card_range, Set.ofPred_true, Set.ncard_univ] at all

theorem uniform_accept (numbered : Numbered toNat (twoTo bits)) (positive : 0 < r)
    (small : r < twoTo bits) : Uniform (fun w => accept? bits r (toNat w)) {v | v < r} where
  within := fun w v accepted => accept?_lt ((numbered.onto _).mp ⟨w, rfl⟩) positive accepted
  shared := ⟨share bits r, twoTo_pos _, fun v inside =>
    (numbered.ncard fun n => accept? bits r n = some v).trans
      (card_answering positive small inside)⟩
  most := by
    rw [numbered.card, numbered.ncard fun n => (accept? bits r n).isSome = true,
      card_accepted positive small]
    exact (width_mul_share positive small).2

theorem uniform_some : Uniform (some : ω → Option ω) Set.univ where
  within := fun _ _ _ => trivial
  shared := ⟨1, Nat.one_pos, fun v _ => by simp⟩
  most := by simp [Set.ncard_univ]; omega

theorem Uniform.map {α β : Type} {round : ω → Option α} {values : Set α}
    (uniform : Uniform round values)
    {f : α → β} (inj : Set.InjOn f values) : Uniform (fun w => (round w).map f) (f '' values) where
  within := by
    intro w _ mapped
    obtain ⟨v, answered, rfl⟩ := Option.map_eq_some_iff.mp mapped
    exact ⟨v, uniform.within w v answered, rfl⟩
  shared := by
    obtain ⟨share, some, each⟩ := uniform.shared
    refine ⟨share, some, ?_⟩
    rintro _ ⟨v, inside, rfl⟩
    rw [← each v inside]
    congr 1
    ext w
    rw [Set.mem_ofPred_eq, Set.mem_ofPred_eq, Option.map_eq_some_iff]
    refine ⟨?_, fun answered => ⟨v, answered, rfl⟩⟩
    rintro ⟨v', answered, same⟩
    rw [answered, inj (uniform.within w v' answered) inside same]
  most := by
    simp only [Option.isSome_map]
    exact uniform.most

end Counting

section Repeating

variable {α β : Type} {d : Draw (Option α)} {ws : Words} {i j k fuel step : Nat}
  {a : α} {found : Option α}

/-- The rounds before the k-th are rejected, and that one is not. -/
def FirstAt (round : Nat → Option α) (k : Nat) (a : α) : Prop :=
  (∀ m < k, round m = none) ∧ round k = some a

theorem firstAt_zero {round : Nat → Option α} : FirstAt round 0 a ↔ round 0 = some a :=
  ⟨fun first => first.2, fun accepted =>
    ⟨fun _ before => absurd before (Nat.not_lt_zero _), accepted⟩⟩

theorem firstAt_succ {round : Nat → Option α} :
    FirstAt round (k + 1) a ↔ round 0 = none ∧ FirstAt (fun m => round (m + 1)) k a := by
  constructor
  · rintro ⟨rejected, accepted⟩
    exact ⟨rejected 0 k.succ_pos,
      fun m before => rejected (m + 1) (Nat.succ_lt_succ before), accepted⟩
  · rintro ⟨first, rejected, accepted⟩
    refine ⟨fun m before => ?_, accepted⟩
    cases m with
    | zero => exact first
    | succ m => exact rejected m (Nat.lt_of_succ_lt_succ before)

theorem firstAt_map {round : Nat → Option α} {f : α → β} {b : β} :
    FirstAt (fun m => (round m).map f) k b ↔ ∃ a, FirstAt round k a ∧ b = f a := by
  simp only [FirstAt, Option.map_eq_none_iff, Option.map_eq_some_iff]
  constructor
  · rintro ⟨rejected, a, accepted, rfl⟩
    exact ⟨a, ⟨rejected, accepted⟩, rfl⟩
  · rintro ⟨a, ⟨rejected, accepted⟩, rfl⟩
    exact ⟨rejected, a, accepted, rfl⟩

theorem untilSome_of_accepted (turn : d ws i = some (some a, j)) :
    untilSome d (fuel + 1) ws i = some (a, j) :=
  bind_eq_some.mpr ⟨some a, j, turn, rfl⟩

theorem untilSome_of_rejected (turn : d ws i = some (none, j)) :
    untilSome d (fuel + 1) ws i = untilSome d fuel ws j := by
  change Draw.bind d _ ws i = _
  unfold Draw.bind
  rw [turn]

theorem reaches_untilSome_iff {f : Nat → Option α} (turn : ∀ i, d ws i = some (f i, i + step)) :
    Reaches (untilSome d) ws i a j ↔ ∃ k, j = i + (k + 1) * step ∧
      FirstAt (fun m => f (i + m * step)) k a := by
  have onward (i m : Nat) : i + (m + 1) * step = i + step + m * step := by rw [Nat.succ_mul]; omega
  constructor
  · rintro ⟨fuel, drawn⟩
    induction fuel generalizing i with
    | zero => cases drawn
    | succ fuel ih =>
      have here := turn i
      cases first : f i with
      | some b =>
        rw [first] at here
        rw [untilSome_of_accepted here] at drawn
        cases drawn
        exact ⟨0, by simp, firstAt_zero.mpr (by simpa using first)⟩
      | none =>
        rw [first] at here
        rw [untilSome_of_rejected here] at drawn
        obtain ⟨k, rfl, later⟩ := ih drawn
        refine ⟨k + 1, (onward i (k + 1)).symm, firstAt_succ.mpr ⟨by simpa using first, ?_⟩⟩
        simpa only [onward] using later
  · rintro ⟨k, rfl, first⟩
    induction k generalizing i with
    | zero =>
      have accepted : f i = some a := by simpa using firstAt_zero.mp first
      exact ⟨1, untilSome_of_accepted (by rw [turn i, accepted, Nat.zero_add, Nat.one_mul])⟩
    | succ k ih =>
      obtain ⟨rejected, later⟩ := firstAt_succ.mp first
      have rejected : f i = none := by simpa using rejected
      simp only [onward] at later
      obtain ⟨fuel, drawn⟩ := ih later
      rw [onward]
      exact ⟨fuel + 1, (untilSome_of_rejected (by rw [turn i, rejected])).trans drawn⟩

end Repeating

section Rounds

variable {lo hi : UInt32} {length : Nat}

def rangeRound (lo hi w : UInt32) : Option UInt32 := (range 1 lo hi (fun _ => w) 0).map Prod.fst

def halves (w : UInt64) : Words := fun i => if i % 2 = 0 then w.toUInt32 else (w >>> 32).toUInt32

def pairAt (ws : Words) (i : Nat) : UInt64 := (ws i).toUInt64 ||| (ws (i + 1)).toUInt64 <<< 32

def indexRound (length : Nat) (w : UInt64) : Option Nat :=
  (index 1 length (halves w) 0).map Prod.fst

theorem pairAt_halves (w : UInt64) : pairAt (halves w) 0 = w := by
  have bound := w.toNat_lt
  have low : w.toUInt32.toUInt64.toNat = w.toNat % 2 ^ 32 := by simp
  have high : ((w >>> 32).toUInt32.toUInt64 <<< 32).toNat = (w.toNat / 2 ^ 32) <<< 32 := by
    simp only [UInt64.toNat_shiftLeft, UInt32.toNat_toUInt64,
      UInt64.toNat_toUInt32, UInt64.toNat_shiftRight]
    change (w.toNat >>> 32 % 2 ^ 32) <<< 32 % 2 ^ 64 = _
    rw [Nat.shiftRight_eq_div_pow, Nat.shiftLeft_eq, Nat.shiftLeft_eq]
    omega
  refine UInt64.toNat_inj.mp ?_
  change (w.toUInt32.toUInt64 ||| (w >>> 32).toUInt32.toUInt64 <<< 32).toNat = w.toNat
  rw [UInt64.toNat_or, low, high, Nat.or_comm,
    ← Nat.shiftLeft_add_eq_or_of_lt (Nat.mod_lt _ (by decide)),
    Nat.shiftLeft_eq]
  omega

theorem numbered_words : Numbered UInt32.toNat (twoTo 32) where
  inj := fun _ _ => UInt32.toNat_inj.mp
  onto := fun n =>
    ⟨fun ⟨w, same⟩ => same ▸ w.toNat_lt,
      fun small => ⟨UInt32.ofNat n, UInt32.toNat_ofNat_of_lt' small⟩⟩

theorem numbered_pairs : Numbered UInt64.toNat (twoTo 64) where
  inj := fun _ _ => UInt64.toNat_inj.mp
  onto := fun n =>
    ⟨fun ⟨w, same⟩ => same ▸ w.toNat_lt,
      fun small => ⟨UInt64.ofNat n, UInt64.toNat_ofNat_of_lt' small⟩⟩

theorem rangeRound_of_full (apart : lo < hi) (full : (hi - lo + 1).toNat = 0) :
    rangeRound lo hi = some := by
  funext w
  simp only [rangeRound, range, if_neg (UInt32.not_le.mpr apart), if_pos full]
  rfl

theorem rangeRound_of_partly (apart : lo < hi) (partly : (hi - lo + 1).toNat ≠ 0) :
    rangeRound lo hi = fun w => (accept? 32 (hi - lo + 1).toNat w.toNat).map fun n =>
      lo + UInt32.ofNat n := by
  funext w
  simp only [rangeRound, range, if_neg (UInt32.not_le.mpr apart), if_neg partly]
  change (Draw.bind (untilSome _ 1) _ _ 0).map Prod.fst = _
  unfold Draw.bind
  cases answer : accept? 32 (hi - lo + 1).toNat w.toNat with
  | none =>
    rw [untilSome_of_rejected (j := 1) (by rw [← answer]; rfl)]
    rfl
  | some n =>
    rw [untilSome_of_accepted (a := n) (j := 1) (by rw [← answer]; rfl)]
    rfl

theorem indexRound_eq (several : 2 ≤ length) : indexRound length = fun w =>
    accept? 64 length w.toNat := by
  funext w
  simp only [indexRound, index, if_neg (Nat.not_le.mpr several)]
  have turn : (do let w ← word64; return accept? 64 length w.toNat : Draw (Option Nat)) (halves w) 0
      = some (accept? 64 length (pairAt (halves w) 0).toNat, 2) := rfl
  rw [pairAt_halves] at turn
  cases answer : accept? 64 length w.toNat with
  | none =>
    rw [answer] at turn
    rw [untilSome_of_rejected turn]
    rfl
  | some n =>
    rw [answer] at turn
    rw [untilSome_of_accepted turn]
    rfl

theorem toNat_offset (apart : lo < hi) {n : Nat} (within : n < hi.toNat - lo.toNat + 1) :
    (lo + UInt32.ofNat n).toNat = lo.toNat + n := by
  have order := UInt32.lt_iff_toNat_lt.mp apart
  have bound := hi.toNat_lt
  have size : UInt32.size = 2 ^ 32 := rfl
  rw [UInt32.toNat_add, UInt32.toNat_ofNat_of_lt' (by omega), Nat.mod_eq_of_lt (by omega)]

theorem uniform_rangeRound (apart : lo < hi) :
    Uniform (rangeRound lo hi) {v | lo ≤ v ∧ v ≤ hi} := by
  by_cases full : (hi - lo + 1).toNat = 0
  · have all : {v | lo ≤ v ∧ v ≤ hi} = Set.univ :=
      Set.eq_univ_of_forall (between_of_full apart full)
    rw [rangeRound_of_full apart full, all]
    exact uniform_some
  · have width := toNat_width apart full
    have order := UInt32.lt_iff_toNat_lt.mp apart
    have values : {v | lo ≤ v ∧ v ≤ hi} = (fun n => lo + UInt32.ofNat n) ''
        {n | n < (hi - lo + 1).toNat} := by
      ext v
      rw [Set.mem_ofPred_eq, UInt32.le_iff_toNat_le, UInt32.le_iff_toNat_le, Set.mem_image]
      constructor
      · rintro ⟨least, most⟩
        have inside : v.toNat - lo.toNat < hi.toNat - lo.toNat + 1 := by omega
        refine ⟨v.toNat - lo.toNat, width ▸ inside, UInt32.toNat_inj.mp ?_⟩
        rw [toNat_offset apart inside]
        omega
      · rintro ⟨n, inside, rfl⟩
        rw [Set.mem_ofPred_eq, width] at inside
        rw [toNat_offset apart inside]
        omega
    have inj : Set.InjOn (fun n => lo + UInt32.ofNat n) {n | n < (hi - lo + 1).toNat} := by
      intro m inside n inside' same
      rw [Set.mem_ofPred_eq, width] at inside inside'
      have numbers := congrArg UInt32.toNat same
      rw [toNat_offset apart inside, toNat_offset apart inside'] at numbers
      omega
    rw [rangeRound_of_partly apart full, values]
    exact (uniform_accept numbered_words (Nat.pos_of_ne_zero full) (hi - lo + 1).toNat_lt).map inj

theorem uniform_indexRound (several : 2 ≤ length) (small : length < twoTo 64) :
    Uniform (indexRound length) {v | v < length} := by
  rw [indexRound_eq several]
  exact uniform_accept numbered_pairs (by omega) small

end Rounds

section Runs

variable {ws : Words} {lo hi n : UInt32} {length v i j : Nat}

theorem reaches_range_iff (apart : lo < hi) : Reaches (fun fuel => range fuel lo hi) ws i n j ↔
    ∃ k, j = i + (k + 1) ∧ FirstAt (fun m => rangeRound lo hi (ws (i + m))) k n := by
  unfold range
  simp only [if_neg (UInt32.not_le.mpr apart)]
  by_cases full : (hi - lo + 1).toNat = 0
  · simp only [if_pos full, rangeRound_of_full apart full]
    constructor
    · rintro ⟨_, ⟨⟩⟩
      exact ⟨0, rfl, firstAt_zero.mpr rfl⟩
    · rintro ⟨k, rfl, rejected, accepted⟩
      cases k with
      | zero =>
        cases accepted
        exact reaches_free rfl
      | succ k => cases rejected 0 k.succ_pos
  · have turn :
      ∀ i, (do let w ← word; return accept? 32 (hi - lo + 1).toNat w.toNat : Draw (Option Nat)) ws i
        = some (accept? 32 (hi - lo + 1).toNat (ws i).toNat, i + 1) := fun _ => rfl
    simp only [if_neg full, rangeRound_of_partly apart full, firstAt_map]
    rw [reaches_map]
    simp only [reaches_untilSome_iff turn, Nat.mul_one]
    constructor
    · rintro ⟨v, ⟨k, last, first⟩, same⟩
      exact ⟨k, last, v, first, same⟩
    · rintro ⟨k, last, v, first, same⟩
      exact ⟨v, ⟨k, last, first⟩, same⟩

theorem reaches_index_iff (several : 2 ≤ length) :
    Reaches (fun fuel => index fuel length) ws i v j ↔
    ∃ k, j = i + (k + 1) * 2 ∧
      FirstAt (fun m => indexRound length (pairAt ws (i + m * 2))) k v := by
  unfold index
  have turn : ∀ i, (do let w ← word64; return accept? 64 length w.toNat : Draw (Option Nat)) ws i
      = some (accept? 64 length (pairAt ws i).toNat, i + 2) := fun _ => rfl
  simp only [if_neg (Nat.not_le.mpr several), indexRound_eq several]
  exact reaches_untilSome_iff turn

/-- Every draw of a number lies between its bounds. Each round of a draw answers every value from as
many words as any other and accepts at least half of all words, and the draw answers what its first
accepted round answers. -/
theorem drawn_uniformly :
    (∀ lo hi, lo ≤ hi → ∀ fuel ws i n j, range fuel lo hi ws i = some (n, j) → lo ≤ n ∧ n ≤ hi) ∧
    (∀ lo hi, lo < hi → Uniform (rangeRound lo hi) {v | lo ≤ v ∧ v ≤ hi} ∧
      ∀ ws i n j, Reaches (fun fuel => range fuel lo hi) ws i n j ↔
        ∃ k, j = i + (k + 1) ∧ FirstAt (fun m => rangeRound lo hi (ws (i + m))) k n) ∧
    ∀ length, 2 ≤ length → length < twoTo 64 → Uniform (indexRound length) {v | v < length} ∧
      ∀ ws i v j, Reaches (fun fuel => index fuel length) ws i v j ↔
        ∃ k, j = i + (k + 1) * 2 ∧
          FirstAt (fun m => indexRound length (pairAt ws (i + m * 2))) k v :=
  ⟨fun _ _ ordered _ ws i n j drawn => always_range ordered ws i n j drawn,
    fun _ _ apart => ⟨uniform_rangeRound apart, fun _ _ _ _ => reaches_range_iff apart⟩,
    fun _ several small =>
      ⟨uniform_indexRound several small, fun _ _ _ _ => reaches_index_iff several⟩⟩

/-- A word that four values reject, and zeros after it. -/
def rejectedFirst : Words := fun i => if i = 0 then 0xFFFFFFFF else 0

theorem few_and_all_drawn_uniformly : range 2 2 5 rejectedFirst 0 = some (2, 2) ∧ (2 : UInt32) ≤ 2 ∧
    Uniform (rangeRound 2 5) {v | 2 ≤ v ∧ v ≤ 5} ∧
    Uniform (rangeRound 0 0xFFFFFFFF) {v | 0 ≤ v ∧ v ≤ 0xFFFFFFFF} ∧
      Uniform (indexRound 6) {v | v < 6} := by
  have drawn : range 2 2 5 rejectedFirst 0 = some (2, 2) := by decide +kernel
  exact ⟨drawn, (drawn_uniformly.1 2 5 (by decide) _ _ _ _ _ drawn).1,
    (drawn_uniformly.2.1 2 5 (by decide)).1,
    (drawn_uniformly.2.1 0 0xFFFFFFFF (by decide)).1,
      (drawn_uniformly.2.2 6 (by decide) (by decide)).1⟩

end Runs

end Draw

end SeedTree
