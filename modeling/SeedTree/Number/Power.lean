/- Powers of two and of ten. -/
namespace SeedTree

def twoTo (n : Nat) : Nat := Nat.pow 2 n

def tenTo (n : Nat) : Nat := Nat.pow 10 n

def fitsInt64 (n : Int) : Bool := -(twoTo 63 : Int) ≤ n && n < twoTo 63

theorem twoTo_pos (n : Nat) : 0 < twoTo n := Nat.pow_pos (by decide)

theorem twoTo_add (m n : Nat) : twoTo (m + n) = twoTo m * twoTo n := Nat.pow_add 2 m n

end SeedTree
