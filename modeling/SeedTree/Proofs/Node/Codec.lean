import SeedTree.Proofs.Node.Record
import SeedTree.Store

/- The stored form of a node stands for that node alone. A reader that has taken a value off a byte
   string takes the same value off every longer one, so a form that is cut short anywhere is not
   read at all, and no form continues another. -/
namespace SeedTree

namespace Record

namespace Reader

/-- What the reader takes off a byte string it takes off that byte string with any bytes after
it. -/
def Stable {α : Type} (r : Reader α) : Prop :=
  ∀ bs a rest, r bs = some (a, rest) → ∀ more, r (bs ++ more) = some (a, rest ++ more)

section Closure

variable {α β : Type}

theorem stable_pure (a : α) : Stable (Pure.pure a : Reader α) := by
  intro bs b rest read more
  obtain ⟨rfl, rfl⟩ : a = b ∧ bs = rest := by simpa [Pure.pure, Reader.pure] using read
  rfl

theorem stable_ofOption (a : Option α) : Stable (ofOption a) := by
  intro bs b rest read more
  cases a with
  | none => cases read
  | some a =>
    obtain ⟨rfl, rfl⟩ : a = b ∧ bs = rest := by simpa [ofOption] using read
    rfl

theorem Stable.bind {r : Reader α} {f : α → Reader β} (first : Stable r)
    (next : ∀ a, Stable (f a)) : Stable (r >>= f) := by
  intro bs b rest read more
  change Reader.bind r f bs = some (b, rest) at read
  rw [Reader.bind] at read
  split at read
  · cases read
  · rename_i a middle taken
    rw [bind_of (first bs a middle taken more)]
    exact next a middle b rest read more

theorem stable_ite {condition : Prop} [Decidable condition] {r s : Reader α} (left : Stable r)
    (right : Stable s) : Stable (if condition then r else s) := by
  split
  · exact left
  · exact right

end Closure

theorem stable_take (count : Nat) : Stable (take count) := by
  intro bs a rest read more
  unfold take at read
  split at read
  · cases read
  · rename_i enough
    obtain ⟨rfl, rfl⟩ : bs.take count = a ∧ bs.drop count = rest := by simpa using read
    have longer : ¬ (bs ++ more).length < count := by
      rw [List.length_append]
      omega
    rw [take, if_neg longer, List.take_append_of_le_length (by omega),
      List.drop_append_of_le_length (by omega)]

theorem stable_byte : Stable byte := by
  intro bs a rest read more
  cases bs with
  | nil => cases read
  | cons b bs =>
    obtain ⟨rfl, rfl⟩ : b = a ∧ bs = rest := by simpa [byte] using read
    rfl

theorem stable_number (width : Nat) : Stable (number width) :=
  (stable_take width).bind fun _ => stable_pure _

theorem stable_text : Stable text :=
  (stable_number 8).bind fun _ => (stable_take _).bind fun _ => stable_ofOption _

theorem stable_bool : Stable bool :=
  stable_byte.bind fun _ =>
    stable_ite (stable_pure _) (stable_ite (stable_pure _) (stable_ofOption _))

theorem Stable.optional {α : Type} {r : Reader α} (stable : Stable r) : Stable (optional r) :=
  stable_bool.bind fun _ => stable_ite (stable.bind fun _ => stable_pure _) (stable_pure _)

theorem stable_digest : Stable digest := (stable_take 32).bind fun _ => stable_ofOption _

theorem stable_kind : Stable kind :=
  (stable_number 4).bind fun _ =>
    stable_ite (stable_pure _) (stable_ite (stable_pure _) (stable_ofOption _))

theorem stable_moment : Stable moment := stable_text.bind fun _ => stable_ofOption _

theorem stable_decisions (count : Nat) (m : NameMap Bool) : Stable (decisions count m) := by
  induction count generalizing m with
  | zero => exact stable_pure m
  | succ count ih => exact stable_text.bind fun _ => stable_bool.bind fun _ => ih _

theorem stable_node : Stable node := by
  unfold node
  refine stable_digest.bind fun _ => stable_text.bind fun _ => stable_text.bind fun _ => ?_
  refine stable_text.optional.bind fun _ => (stable_number 4).bind fun _ => ?_
  refine stable_kind.bind fun _ => (stable_number 8).bind fun _ => ?_
  refine stable_text.optional.bind fun _ => stable_moment.bind fun _ => ?_
  refine (stable_number 8).bind fun _ => (stable_decisions _ _).bind fun _ => ?_
  exact stable_bool.bind fun _ => stable_digest.optional.bind fun _ => stable_pure _

end Reader

/-- A stored form that lacks its end is not read: what a reader had taken off it would leave nothing
for the bytes that are missing. -/
theorem decode?_cut {n : Node} (storable : n.Storable) {part missing : Bytes}
    (parts : part ++ missing = encode n) (cut : missing ≠ []) : decode? part = none := by
  cases read : Reader.node part with
  | none => simp [decode?, read]
  | some result =>
    obtain ⟨other, rest⟩ := result
    have longer := Reader.stable_node part other rest read missing
    have whole := node_encode storable []
    rw [List.append_nil, ← parts, longer] at whole
    have left : rest ++ missing = [] := (Prod.mk.inj (Option.some.inj whole)).2
    exact absurd (List.append_eq_nil_iff.mp left).2 cut

theorem encode_injective {a b : Node} (left : a.Storable) (right : b.Storable)
    (same : encode a = encode b) : a = b := by
  have read := node_encode left []
  rw [same, node_encode right []] at read
  exact (Prod.mk.inj (Option.some.inj read)).1.symm

end Record

namespace Store

open Record (encode)

/-- The stored form of a node is read back as the node whatever follows it, is a fault wherever it
is cut short, and is the form of no other node. -/
theorem record_stands_for_node {n : Node} (storable : n.Storable) :
    (∀ more, decode (encode n ++ more) = .ok n)
    ∧ (∀ part, part <+: encode n → part ≠ encode n → decode part = .error .codec)
    ∧ ∀ other : Node, other.Storable → encode other = encode n → other = n := by
  refine ⟨fun more => ?_, fun part begins cut => ?_, fun other held same => ?_⟩
  · have read := Record.node_encode storable more
    simp [decode, Record.decode?, read, pure, Except.pure]
  · obtain ⟨missing, parts⟩ := begins
    have lacking : missing ≠ [] := by
      rintro rfl
      exact cut (by simpa using parts)
    rw [decode, Record.decode?_cut storable parts lacking]
    rfl
  · exact Record.encode_injective held storable same

/-- A file read in the last leap second of a day, with a name of several bytes to the letter,
decisions about two worlds, a checksum and an upload. -/
def lateFile : Node where
  id := ⟨List.replicate 32 7, by decide⟩
  path := "/été.txt"
  name := "été.txt"
  parent := some "/"
  depth := 1
  kind := .file
  size := 1024
  checksum := some "00ff"
  updated := ⟨9999, 12, 31, 23, 59, 60, 120000⟩
  existence := ((∅ : NameMap Bool).insert "dim" false).insert "Ω" true
  generated := false
  upload := some ⟨List.replicate 32 1, by decide⟩

theorem lateFile_storable : lateFile.Storable where
  path := by decide +kernel
  name := by decide +kernel
  parent := by
    rintro _ ⟨rfl⟩
    decide +kernel
  checksum := by
    rintro _ ⟨rfl⟩
    decide +kernel
  updated := by decide
  worlds := by
    intro world member
    rcases Std.ExtTreeMap.mem_insert.mp member with same | member
    · rw [← Std.LawfulEqCmp.eq_of_compare same]
      decide +kernel
    · rcases Std.ExtTreeMap.mem_insert.mp member with same | none
      · rw [← Std.LawfulEqCmp.eq_of_compare same]
        decide +kernel
      · exact absurd none Std.ExtTreeMap.not_mem_empty
  few := by decide +kernel

theorem lateFile_stands_for_itself :
    lateFile.Storable ∧ decode (encode lateFile ++ [0]) = .ok lateFile
      ∧ decode ((encode lateFile).take 100) = .error .codec := by
  obtain ⟨back, cut, -⟩ := record_stands_for_node lateFile_storable
  refine ⟨lateFile_storable, back [0], cut _ (List.take_prefix _ _) ?_⟩
  intro whole
  have length : ((encode lateFile).take 100).length = (encode lateFile).length := by rw [whole]
  revert length
  decide +kernel

end Store

end SeedTree
