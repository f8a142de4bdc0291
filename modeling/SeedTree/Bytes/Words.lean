import SeedTree.Bytes
import SeedTree.Number.Power

/- Little-endian words of two, four and eight bytes. -/
namespace SeedTree.Bytes

/-- The low byte first, in exactly `width` bytes. -/
def little : Nat → Nat → Bytes
  | 0, _ => []
  | width + 1, n => UInt8.ofNat (n % 256) :: little width (n / 256)

def ofLittle : Bytes → Nat
  | [] => 0
  | b :: rest => b.toNat + 256 * ofLittle rest

def le32 (w : UInt32) : Bytes := little 4 w.toNat

def le64 (w : UInt64) : Bytes := little 8 w.toNat

theorem length_little (width n : Nat) : (little width n).length = width := by
  induction width generalizing n with
  | zero => rfl
  | succ width ih => simp [little, ih]

theorem ofLittle_little (width n : Nat) : ofLittle (little width n) = n % Nat.pow 256 width := by
  induction width generalizing n with
  | zero => simp [little, ofLittle, Nat.mod_one]
  | succ width ih =>
    simp only [little, ofLittle, ih]
    have low : (UInt8.ofNat (n % 256)).toNat = n % 256 := by
      simp [UInt8.toNat_ofNat']
    have power : Nat.pow 256 (width + 1) = 256 * Nat.pow 256 width := Nat.mul_comm _ _
    rw [low, power, Nat.mod_mul]

/-- Four bytes at a time; a short tail is dropped. -/
def words32 : Bytes → List UInt32
  | a :: b :: c :: d :: rest =>
    (a.toUInt32 ||| b.toUInt32 <<< 8 ||| c.toUInt32 <<< 16 ||| d.toUInt32 <<< 24) :: words32 rest
  | _ => []

def pieces (size : Nat) : Nat → Bytes → List Bytes
  | 0, _ => []
  | fuel + 1, bs => if bs.isEmpty then [] else bs.take size :: pieces size fuel (bs.drop size)

def chunks (size : Nat) (bs : Bytes) : List Bytes := pieces size bs.length bs

end SeedTree.Bytes
