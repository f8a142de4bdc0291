import Mathlib.Algebra.Group.Nat.Defs
import SeedTree.Node.Record
import SeedTree.Proofs.Bytes.Utf8
import SeedTree.Proofs.Maps
import SeedTree.Proofs.Moment

/- The stored form of a node is read back as the node, whatever bytes follow. The form has lengths
   of eight bytes, so its texts must be shorter than 2^64 bytes. -/
namespace SeedTree

def IsShort (text : String) : Prop := (utf8 text).length < 2 ^ 64

instance (text : String) : Decidable (IsShort text) :=
  inferInstanceAs (Decidable ((utf8 text).length < 2 ^ 64))

/-- The names of worlds that a run may speak of; there are too few of them to overflow a count. -/
structure Scope where
  worlds : List String
  primary : World.primaryName ∈ worlds
  few : worlds.length < 2 ^ 64
  short : ∀ world ∈ worlds, IsShort world

def Scope.bare : Scope where
  worlds := [World.primaryName]
  primary := List.mem_singleton_self _
  few := by decide
  short := by
    intro world member
    rw [List.mem_singleton.mp member]
    decide +kernel

structure Node.Fits (scope : Scope) (n : Node) : Prop where
  path : IsShort n.path
  name : IsShort n.name
  parent : ∀ folder, n.parent = some folder → IsShort folder
  checksum : ∀ text, n.checksum = some text → IsShort text
  updated : n.updated.isValid = true
  worlds : ∀ world, world ∈ n.existence → world ∈ scope.worlds

/-- What a machine can hold at all: every length is a number of eight bytes, and the moment is
one. -/
structure Node.Storable (n : Node) : Prop where
  path : IsShort n.path
  name : IsShort n.name
  parent : ∀ folder, n.parent = some folder → IsShort folder
  checksum : ∀ text, n.checksum = some text → IsShort text
  updated : n.updated.isValid = true
  worlds : ∀ world, world ∈ n.existence → IsShort world
  few : n.existence.size < 2 ^ 64

theorem Node.Fits.storable {scope : Scope} {n : Node} (fits : n.Fits scope) : n.Storable where
  path := fits.path
  name := fits.name
  parent := fits.parent
  checksum := fits.checksum
  updated := fits.updated
  worlds := fun world member => scope.short world (fits.worlds world member)
  few := Nat.lt_of_le_of_lt (size_le_of_keys_subset n.existence scope.worlds fits.worlds) scope.few

namespace Record

namespace Reader

theorem bind_of {α β : Type} {r : Reader α} {f : α → Reader β} {bs rest : Bytes} {a : α}
    (read : r bs = some (a, rest)) : (r >>= f) bs = f a rest := by
  change Reader.bind r f bs = _
  simp [Reader.bind, read]

theorem take_append (bs rest : Bytes) : take bs.length (bs ++ rest) = some (bs, rest) := by
  simp [take]

theorem number_little {width n : Nat} (fits : n < 256 ^ width) (rest : Bytes) :
    number width (Bytes.little width n ++ rest) = some (n, rest) := by
  have taken := take_append (Bytes.little width n) rest
  rw [Bytes.length_little] at taken
  have value : n % Nat.pow 256 width = n := Nat.mod_eq_of_lt fits
  rw [number, bind_of taken, Bytes.ofLittle_little, value]
  rfl

theorem text_textField {s : String} (short : IsShort s) (rest : Bytes) :
    text (textField s ++ rest) = some (s, rest) := by
  have fits : (utf8 s).length < 256 ^ 8 := short
  rw [text, textField, List.append_assoc, bind_of (number_little fits _),
    bind_of (take_append _ _), Bytes.toText?_utf8]
  rfl

theorem bool_boolField (b : Bool) (rest : Bytes) : bool (boolField b ++ rest) = some (b, rest) := by
  cases b <;> rfl

theorem optional_optionalField {α : Type} {write : α → Bytes} {r : Reader α} (a : Option α)
    (read : ∀ x, a = some x → ∀ rest, r (write x ++ rest) = some (x, rest)) (rest : Bytes) :
    optional r (optionalField write a ++ rest) = some (a, rest) := by
  cases a with
  | none => rfl
  | some x =>
    have tag : bool (1 :: (write x ++ rest)) = some (true, write x ++ rest) := rfl
    rw [optionalField, List.cons_append, optional, bind_of tag]
    simp only [if_true]
    rw [bind_of (read x rfl rest)]
    rfl

theorem digest_bytes (d : Digest) (rest : Bytes) : digest (d.bytes ++ rest) = some (d, rest) := by
  have taken := take_append d.bytes rest
  rw [d.size] at taken
  rw [digest, bind_of taken, Digest.ofBytes?_bytes]
  rfl

theorem kind_kindField (k : NodeKind) (rest : Bytes) :
    kind (kindField k ++ rest) = some (k, rest) := by
  cases k
  · rw [kind, kindField, bind_of (number_little (by decide) rest)]
    rfl
  · rw [kind, kindField, bind_of (number_little (by decide) rest)]
    rfl

theorem moment_toText {m : Moment} (valid : m.isValid = true) (short : IsShort m.toText)
    (rest : Bytes) : moment (textField m.toText ++ rest) = some (m, rest) := by
  rw [moment, bind_of (text_textField short rest), Moment.read?_toText valid]
  rfl

theorem decisions_flatMap (entries : List (String × Bool)) (m : NameMap Bool)
    (short : ∀ entry ∈ entries, IsShort entry.1) (rest : Bytes) :
    decisions entries.length m (entries.flatMap decisionField ++ rest)
      = some (entries.foldl (fun m entry => m.insert entry.1 entry.2) m, rest) := by
  induction entries generalizing m with
  | nil => rfl
  | cons entry entries ih =>
    have first := short entry (by simp)
    rw [List.flatMap_cons, List.length_cons, decisions, decisionField, List.append_assoc,
      List.append_assoc, bind_of (text_textField first _), bind_of (bool_boolField _ _),
      ih _ (fun other member => short other (by simp [member]))]
    rfl

end Reader

theorem isShort_moment {m : Moment} (valid : m.isValid = true) : IsShort m.toText := by
  have count := Moment.length_toText_le valid
  have bytes := length_utf8_le m.toText
  unfold IsShort
  omega

open Reader in
theorem node_encode {n : Node} (storable : n.Storable) (rest : Bytes) :
    Reader.node (encode n ++ rest) = some (n, rest) := by
  have size : n.existence.size < 256 ^ 8 := storable.few
  have worlds : ∀ entry ∈ n.existence.toList, IsShort entry.1 := by
    intro entry member
    have found := Std.ExtTreeMap.mem_toList_iff_getElem?_eq_some.mp member
    exact storable.worlds _ ((mem_iff_getElem?_some _ _).mpr ⟨_, found⟩)
  have existence : decisions n.existence.size ∅
      (n.existence.toList.flatMap decisionField ++
        (boolField n.generated ++ (optionalField Digest.bytes n.upload ++ rest)))
      = some (n.existence, boolField n.generated ++
        (optionalField Digest.bytes n.upload ++ rest)) := by
    rw [← Std.ExtTreeMap.length_toList, decisions_flatMap _ _ worlds]
    exact congrArg (fun m => some (m, _)) (NameMap.ofList_toList n.existence)
  simp only [encode, decisionsField, List.append_assoc]
  rw [node, bind_of (digest_bytes _ _), bind_of (text_textField storable.path _),
    bind_of (text_textField storable.name _),
    bind_of (optional_optionalField _ (fun x eq => text_textField (storable.parent x eq)) _),
    Bytes.le32, bind_of (number_little n.depth.toNat_lt _), bind_of (kind_kindField _ _),
    Bytes.le64, bind_of (number_little n.size.toNat_lt _),
    bind_of (optional_optionalField _ (fun x eq => text_textField (storable.checksum x eq)) _),
    bind_of (moment_toText storable.updated (isShort_moment storable.updated) _),
    bind_of (number_little size _), bind_of existence, bind_of (bool_boolField _ _),
    bind_of (optional_optionalField _ (fun x _ => digest_bytes x) _)]
  simp only [UInt32.ofNat_toNat, UInt64.ofNat_toNat]
  rfl

theorem decode?_encode {scope : Scope} {n : Node} (fits : n.Fits scope) (rest : Bytes) :
    decode? (encode n ++ rest) = some n := by
  simp [decode?, node_encode fits.storable]

end Record

end SeedTree
