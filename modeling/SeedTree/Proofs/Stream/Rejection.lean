import SeedTree.Proofs.Children

/- Draws that reject words: what they accept lies in the range asked for, more fuel changes no
   answer, and on a sequence in which every word keeps coming they accept in the end. -/
namespace SeedTree

namespace Draw

section Bounds

variable {bits r word n fuel : Nat} {lo hi : UInt32}

theorem accept?_lt (bound : word < twoTo bits) (positive : 0 < r)
    (accepted : accept? bits r word = some n) : n < r := by
  simp only [accept?] at accepted
  split at accepted
  · cases accepted
    exact Nat.div_lt_of_lt_mul (Nat.mul_lt_mul_of_pos_right bound positive)
  · cases accepted

theorem accept?_of_low (small : word * r < twoTo bits) (low : word * r ≤ zone bits r) :
    accept? bits r word = some 0 := by
  have whole : word * r % twoTo bits = word * r := Nat.mod_eq_of_lt small
  simp only [accept?, whole, low, if_true, Nat.div_eq_of_lt small]

theorem toNat_width (apart : lo < hi) (partly : (hi - lo + 1).toNat ≠ 0) :
    (hi - lo + 1).toNat = hi.toNat - lo.toNat + 1 := by
  have order := UInt32.lt_iff_toNat_lt.mp apart
  have difference : (hi - lo).toNat = hi.toNat - lo.toNat :=
    UInt32.toNat_sub_of_le hi lo (UInt32.le_of_lt apart)
  have bound := hi.toNat_lt
  rw [UInt32.toNat_add, difference] at partly ⊢
  have one : (1 : UInt32).toNat = 1 := rfl
  rw [one] at partly ⊢
  have short : hi.toNat - lo.toNat + 1 ≠ 2 ^ 32 := fun full => partly (by rw [full, Nat.mod_self])
  exact Nat.mod_eq_of_lt (by omega)

theorem between_of_full (apart : lo < hi) (full : (hi - lo + 1).toNat = 0) (w : UInt32) :
    lo ≤ w ∧ w ≤ hi := by
  have order := UInt32.lt_iff_toNat_lt.mp apart
  have difference : (hi - lo).toNat = hi.toNat - lo.toNat :=
    UInt32.toNat_sub_of_le hi lo (UInt32.le_of_lt apart)
  have one : (1 : UInt32).toNat = 1 := rfl
  have upper := hi.toNat_lt
  have bound := w.toNat_lt
  rw [UInt32.toNat_add, difference, one] at full
  rw [UInt32.le_iff_toNat_le, UInt32.le_iff_toNat_le]
  omega

theorem always_range (ordered : lo ≤ hi) :
    Always (range fuel lo hi) fun n => lo ≤ n ∧ n ≤ hi := by
  unfold range
  split
  · exact always_pure ⟨UInt32.le_refl lo, ordered⟩
  · rename_i apart
    have apart : lo < hi := UInt32.not_le.mp apart
    dsimp only
    split
    · rename_i full
      exact always_mono (always_any _) fun w _ => between_of_full apart full w
    · rename_i partly
      have width := toNat_width apart partly
      have accepted : Always (do let w ← word; return accept? 32 (hi - lo + 1).toNat w.toNat)
          fun found => ∀ n, found = some n → n < (hi - lo + 1).toNat := by
        refine always_bind (always_any _) fun w _ => always_pure fun n found => ?_
        exact accept?_lt w.toNat_lt (Nat.pos_of_ne_zero partly) found
      refine always_bind (always_untilSome accepted fuel) fun n below => always_pure ?_
      have order := UInt32.le_iff_toNat_le.mp ordered
      have bound := hi.toNat_lt
      have number : (UInt32.ofNat n).toNat = n := by
        have size : UInt32.size = 2 ^ 32 := rfl
        exact UInt32.toNat_ofNat_of_lt' (by omega)
      have sum : (lo + UInt32.ofNat n).toNat = lo.toNat + n := by
        rw [UInt32.toNat_add, number]
        exact Nat.mod_eq_of_lt (by omega)
      rw [UInt32.le_iff_toNat_le, UInt32.le_iff_toNat_le, sum]
      omega

end Bounds

def Steady {α : Type} (d : Nat → Draw α) : Prop :=
  ∀ fuel more ws i answer, fuel ≤ more → d fuel ws i = some answer → d more ws i = some answer

/-- What a draw answers and where it leaves off, given fuel enough. -/
def Reaches {α : Type} (d : Nat → Draw α) (ws : Words) (i : Nat) (a : α) (j : Nat) : Prop :=
  ∃ fuel, d fuel ws i = some (a, j)

section Fuel

variable {α β : Type} {d : Nat → Draw α} {f : Nat → α → Draw β} {ws : Words}
  {i j k : Nat} {a a' : α} {b : β}

theorem steady_free (d : Draw α) : Steady fun _ => d := fun _ _ _ _ _ _ drawn => drawn

theorem bind_eq_some {d : Draw α} {f : α → Draw β} :
    (d >>= f) ws i = some (b, k) ↔ ∃ a j, d ws i = some (a, j) ∧ f a ws j = some (b, k) := by
  change Draw.bind d f ws i = some (b, k) ↔ _
  unfold Draw.bind
  cases d ws i with
  | none => simp
  | some pair =>
    obtain ⟨a, j⟩ := pair
    simp

theorem steady_bind (first : Steady d) (rest : ∀ a, Steady fun fuel => f fuel a) :
    Steady fun fuel => d fuel >>= f fuel := by
  rintro fuel more ws i ⟨b, k⟩ le drawn
  obtain ⟨a, j, left, right⟩ := bind_eq_some.mp drawn
  exact bind_eq_some.mpr ⟨a, j, first fuel more ws i _ le left, rest a fuel more ws j _ le right⟩

theorem steady_map (steady : Steady d) (f : α → β) :
    Steady fun fuel => d fuel >>= fun a => Pure.pure (f a) :=
  steady_bind steady fun _ => steady_free _

theorem steady_ite {c : Prop} [Decidable c] {d' : Nat → Draw α} (yes : Steady d) (no : Steady d') :
    Steady fun fuel => if c then d fuel else d' fuel := by
  by_cases holds : c
  · simpa only [if_pos holds] using yes
  · simpa only [if_neg holds] using no

theorem steady_untilSome (d : Draw (Option α)) : Steady (untilSome d) := by
  intro fuel
  induction fuel with
  | zero =>
    intro more ws i answer _ drawn
    cases drawn
  | succ fuel ih =>
    rintro more ws i ⟨a, k⟩ le drawn
    obtain ⟨more, rfl⟩ : ∃ n, more = n + 1 := ⟨more - 1, by omega⟩
    obtain ⟨found, j, first, rest⟩ := bind_eq_some.mp drawn
    refine bind_eq_some.mpr ⟨found, j, first, ?_⟩
    cases found with
    | none => exact ih more ws j _ (by omega) rest
    | some a => exact rest

theorem steady_range (lo hi : UInt32) : Steady fun fuel => range fuel lo hi :=
  steady_ite (steady_free _) <| steady_ite (steady_free _) <|
    steady_map (steady_untilSome _) fun n => lo + UInt32.ofNat n

theorem steady_index (length : Nat) : Steady fun fuel => index fuel length :=
  steady_ite (steady_free _) (steady_untilSome _)

theorem Reaches.unique (steady : Steady d) (first : Reaches d ws i a j)
    (second : Reaches d ws i a' k) : a = a' ∧ j = k := by
  obtain ⟨fuel, drawn⟩ := first
  obtain ⟨fuel', drawn'⟩ := second
  have enough := steady fuel (max fuel fuel') ws i _ (Nat.le_max_left ..) drawn
  rw [steady fuel' (max fuel fuel') ws i _ (Nat.le_max_right ..) drawn'] at enough
  cases enough
  exact ⟨rfl, rfl⟩

theorem reaches_free {d : Draw α} (drawn : d ws i = some (a, j)) : Reaches (fun _ => d) ws i a j :=
  ⟨0, drawn⟩

theorem reaches_bind (steady : Steady d) (onward : ∀ a, Steady fun fuel => f fuel a) :
    Reaches (fun fuel => d fuel >>= f fuel) ws i b k ↔
      ∃ a j, Reaches d ws i a j ∧ Reaches (fun fuel => f fuel a) ws j b k := by
  constructor
  · rintro ⟨fuel, drawn⟩
    obtain ⟨a, j, first, rest⟩ := bind_eq_some.mp drawn
    exact ⟨a, j, ⟨fuel, first⟩, fuel, rest⟩
  · rintro ⟨a, j, ⟨fuel, first⟩, fuel', rest⟩
    refine ⟨max fuel fuel', bind_eq_some.mpr ⟨a, j, ?_, ?_⟩⟩
    · exact steady fuel _ ws i _ (Nat.le_max_left ..) first
    · exact onward a fuel' _ ws j _ (Nat.le_max_right ..) rest

theorem Reaches.map (drawn : Reaches d ws i a j) (f : α → β) :
    Reaches (fun fuel => d fuel >>= fun a => Pure.pure (f a)) ws i (f a) j := by
  obtain ⟨fuel, drawn⟩ := drawn
  exact ⟨fuel, bind_eq_some.mpr ⟨a, j, drawn, rfl⟩⟩

theorem reaches_map {f : α → β} :
    Reaches (fun fuel => d fuel >>= fun a => Pure.pure (f a)) ws i b k ↔
      ∃ a, Reaches d ws i a k ∧ b = f a := by
  refine ⟨?_, ?_⟩
  · rintro ⟨fuel, drawn⟩
    obtain ⟨a, j, drawn, ⟨⟩⟩ := bind_eq_some.mp drawn
    exact ⟨a, ⟨fuel, drawn⟩, rfl⟩
  · rintro ⟨a, drawn, rfl⟩
    exact drawn.map f

end Fuel

/-- Every word keeps coming, at the even and at the odd distances from any position. -/
def Fair (ws : Words) : Prop := ∀ i w, ∃ k, ws (i + 2 * k) = w

section Fairness

variable {α : Type} {ws : Words} (fair : Fair ws) (i : Nat)

theorem reaches_untilSome {d : Draw (Option α)} {f : Nat → Option α} {step : Nat}
    (turn : ∀ i, d ws i = some (f i, i + step)) {k : Nat} {a : α}
    (accepted : f (i + k * step) = some a) : ∃ a j, Reaches (untilSome d) ws i a j := by
  induction k generalizing i with
  | zero =>
    rw [Nat.zero_mul, Nat.add_zero] at accepted
    exact ⟨a, i + step, 1, bind_eq_some.mpr ⟨_, _, turn i, by rw [accepted]; rfl⟩⟩
  | succ k ih =>
    cases first : f i with
    | some b => exact ⟨b, i + step, 1, bind_eq_some.mpr ⟨_, _, turn i, by rw [first]; rfl⟩⟩
    | none =>
      have later : i + step + k * step = i + (k + 1) * step := by rw [Nat.succ_mul]; omega
      obtain ⟨b, j, fuel, drawn⟩ := ih (i + step) (later ▸ accepted)
      exact ⟨b, j, fuel + 1, bind_eq_some.mpr ⟨_, _, turn i, by rw [first]; exact drawn⟩⟩

include fair

theorem reaches_range (lo hi : UInt32) :
    ∃ n j, Reaches (fun fuel => range fuel lo hi) ws i n j := by
  unfold range
  by_cases single : hi ≤ lo
  · simp only [if_pos single]
    exact ⟨lo, i, reaches_free rfl⟩
  · simp only [if_neg single]
    by_cases full : (hi - lo + 1).toNat = 0
    · simp only [if_pos full]
      exact ⟨_, _, reaches_free rfl⟩
    · simp only [if_neg full]
      obtain ⟨k, zero⟩ := fair i 0
      have accepted : accept? 32 (hi - lo + 1).toNat (ws (i + 2 * k * 1)).toNat = some 0 := by
        have none : (0 : UInt32).toNat = 0 := rfl
        rw [Nat.mul_one, zero, none]
        exact accept?_of_low (by rw [Nat.zero_mul]; decide)
          (by rw [Nat.zero_mul]; exact Nat.zero_le _)
      obtain ⟨n, j, drawn⟩ := reaches_untilSome i
        (d := do let w ← word; return accept? 32 (hi - lo + 1).toNat w.toNat)
          (fun _ => rfl) accepted
      exact ⟨_, j, drawn.map fun n => lo + UInt32.ofNat n⟩

theorem reaches_index {length : Nat} (most : length ≤ 32) (room : twoTo 37 ≤ zone 64 length) :
    ∃ n j, Reaches (fun fuel => index fuel length) ws i n j := by
  unfold index
  by_cases single : length ≤ 1
  · simp only [if_pos single]
    exact ⟨0, i, reaches_free rfl⟩
  · simp only [if_neg single]
    obtain ⟨k, zero⟩ := fair (i + 1) 0
    have high : ws (i + k * 2 + 1) = 0 := by
      rw [← zero]
      congr 1
      omega
    have number : ((ws (i + k * 2)).toUInt64 ||| (0 : UInt32).toUInt64 <<< 32).toNat
        = (ws (i + k * 2)).toNat := by simp
    have bound := (ws (i + k * 2)).toNat_lt
    have below : (ws (i + k * 2)).toNat * length < twoTo 37 := by
      have product := Nat.mul_le_mul_left (ws (i + k * 2)).toNat most
      have power : twoTo 37 = 2 ^ 32 * 32 := rfl
      omega
    have accepted : accept? 64 length
        ((ws (i + k * 2)).toUInt64 ||| (ws (i + k * 2 + 1)).toUInt64 <<< 32).toNat = some 0 := by
      rw [high, number]
      exact accept?_of_low (Nat.lt_trans below (by decide)) (by omega)
    exact reaches_untilSome i (d := do let w ← word64; return accept? 64 length w.toNat)
      (f := fun i => accept? 64 length ((ws i).toUInt64 ||| (ws (i + 1)).toUInt64 <<< 32).toNat)
      (fun _ => rfl) accepted

end Fairness

end Draw

end SeedTree
