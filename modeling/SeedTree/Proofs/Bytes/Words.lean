import SeedTree.Bytes.Words

/- Words written with the low byte first: what begins with a word determines the word and what
   follows it. -/
namespace SeedTree.Bytes

theorem little_inj {width m n : Nat} (same : little width m = little width n)
    (small : m < Nat.pow 256 width) (small' : n < Nat.pow 256 width) : m = n := by
  have values := congrArg ofLittle same
  rwa [ofLittle_little, ofLittle_little, Nat.mod_eq_of_lt small, Nat.mod_eq_of_lt small'] at values

theorem le32_append_inj {v w : UInt32} {a b : Bytes} (same : le32 v ++ a = le32 w ++ b) :
    v = w ∧ a = b := by
  obtain ⟨words, rest⟩ := List.append_inj same ((length_little 4 _).trans (length_little 4 _).symm)
  exact ⟨UInt32.toNat_inj.mp (little_inj words v.toNat_lt w.toNat_lt), rest⟩

theorem le64_append_inj {v w : UInt64} {a b : Bytes} (same : le64 v ++ a = le64 w ++ b) :
    v = w ∧ a = b := by
  obtain ⟨words, rest⟩ := List.append_inj same ((length_little 8 _).trans (length_little 8 _).symm)
  exact ⟨UInt64.toNat_inj.mp (little_inj words v.toNat_lt w.toNat_lt), rest⟩

end SeedTree.Bytes
