import SeedTree.Content
import SeedTree.Proofs.Bytes.Utf8
import SeedTree.Proofs.Bytes.Words

/- The messages that digests are taken of. A message is read back from its front: the seed, and then
   one part after another, each as long as the word before it says. So a message stands for one seed
   and one list of parts, it begins another only if the other's parts begin with its own, and two
   things share a digest only where the digest itself collides. -/
namespace SeedTree

def Measured (parts : List Bytes) : Prop := ∀ part ∈ parts, part.length < twoTo 64

instance (parts : List Bytes) : Decidable (Measured parts) :=
  inferInstanceAs (Decidable (∀ part ∈ parts, _))

/-- Two different messages with one digest under a purpose. -/
def Purpose.Collides (purpose : Purpose) (a b : Bytes) : Prop :=
  a ≠ b ∧ Blake3.deriveUnder purpose.key a = Blake3.deriveUnder purpose.key b

section Parts

variable {part part' rest rest' : Bytes} {parts parts' : List Bytes}

theorem measured_cons : Measured (part :: parts) ↔ part.length < twoTo 64 ∧ Measured parts :=
  List.forall_mem_cons

theorem Digest.short (d : Digest) : d.bytes.length < twoTo 64 := by
  rw [d.size]
  decide

theorem measured_contentParts (id : NodeId) (upload : Option Digest) :
    Measured (contentParts id upload) := by
  refine measured_cons.mpr ⟨id.short, fun part member => ?_⟩
  obtain ⟨digest, _, rfl⟩ := Option.map_eq_some_iff.mp (Option.mem_toList.mp member)
  exact digest.short

theorem contentParts_inj {id id' : NodeId} {upload upload' : Option Digest}
    (same : contentParts id upload = contentParts id' upload') : id = id' ∧ upload = upload' := by
  obtain ⟨ids, digests⟩ := List.cons.inj same
  refine ⟨Digest.ext_bytes ids, ?_⟩
  cases upload with
  | none =>
    cases upload' with
    | none => rfl
    | some digest' => cases digests
  | some digest =>
    cases upload' with
    | none => cases digests
    | some digest' => rw [Digest.ext_bytes (List.cons.inj digests).1]

theorem framed_ne_nil (part : Bytes) : framed part ≠ [] := by
  intro none
  have length := congrArg List.length none
  rw [framed, List.length_append, Bytes.length_little, List.length_nil] at length
  omega

theorem framed_inj (same : framed part = framed part') : part = part' :=
  (List.append_inj same ((Bytes.length_little 8 _).trans (Bytes.length_little 8 _).symm)).2

/-- A part is read off the front of whatever begins with it, although its bytes may look like
lengths. -/
theorem framed_append_inj (short : part.length < twoTo 64) (short' : part'.length < twoTo 64)
    (same : framed part ++ rest = framed part' ++ rest') : part = part' ∧ rest = rest' := by
  rw [framed, framed, List.append_assoc, List.append_assoc] at same
  obtain ⟨lengths, onward⟩ :=
    List.append_inj same ((Bytes.length_little 8 _).trans (Bytes.length_little 8 _).symm)
  exact List.append_inj onward (Bytes.little_inj lengths short short')

/-- By induction on the parts that come first; what follows them is left open. -/
theorem parts_of_frames (measured : Measured parts) (measured' : Measured parts')
    (same : parts.flatMap framed ++ rest = parts'.flatMap framed) :
    ∃ more, parts' = parts ++ more ∧ rest = more.flatMap framed := by
  induction parts generalizing parts' with
  | nil => exact ⟨parts', rfl, same⟩
  | cons part parts ih =>
    obtain ⟨short, measured⟩ := measured_cons.mp measured
    rw [List.flatMap_cons, List.append_assoc] at same
    cases parts' with
    | nil => exact absurd (List.append_eq_nil_iff.mp same).1 (framed_ne_nil part)
    | cons part' parts' =>
      obtain ⟨short', measured'⟩ := measured_cons.mp measured'
      obtain ⟨first, onward⟩ := framed_append_inj short short' (same.trans List.flatMap_cons)
      obtain ⟨more, whole, last⟩ := ih measured measured' onward
      exact ⟨more, by rw [first, whole, List.cons_append], last⟩

end Parts

section Messages

variable {seed seed' : UInt64} {parts parts' : List Bytes}

theorem message_prefix_iff (measured : Measured parts) (measured' : Measured parts') :
    message seed parts <+: message seed' parts' ↔ seed = seed' ∧ parts <+: parts' := by
  constructor
  · rintro ⟨rest, same⟩
    rw [message, message, List.append_assoc] at same
    obtain ⟨seeds, onward⟩ := Bytes.le64_append_inj same
    obtain ⟨more, whole, _⟩ := parts_of_frames measured measured' onward
    exact ⟨seeds, more, whole.symm⟩
  · rintro ⟨rfl, more, rfl⟩
    exact ⟨more.flatMap framed, by rw [message, message, List.flatMap_append, List.append_assoc]⟩

theorem message_eq_iff (measured : Measured parts) (measured' : Measured parts') :
    message seed parts = message seed' parts' ↔ seed = seed' ∧ parts = parts' := by
  constructor
  · intro same
    rw [message, message, ← List.append_nil (parts.flatMap framed)] at same
    obtain ⟨seeds, onward⟩ := Bytes.le64_append_inj same
    obtain ⟨more, whole, last⟩ := parts_of_frames measured measured' onward
    cases more with
    | nil => exact ⟨seeds, (whole.trans (List.append_nil parts)).symm⟩
    | cons part more => exact absurd (List.append_eq_nil_iff.mp last.symm).1 (framed_ne_nil part)
  · rintro ⟨rfl, rfl⟩
    rfl

theorem message_path_eq_iff {path path' : String} :
    message seed [utf8 path] = message seed' [utf8 path'] ↔ seed = seed' ∧ path = path' := by
  constructor
  · intro same
    obtain ⟨seeds, onward⟩ := Bytes.le64_append_inj same
    rw [List.flatMap_singleton, List.flatMap_singleton] at onward
    exact ⟨seeds, utf8_injective (framed_inj onward)⟩
  · rintro ⟨rfl, rfl⟩
    rfl

theorem message_world_eq_iff {id id' : NodeId} {world world' : String} :
    message seed [id.bytes, utf8 world] = message seed' [id'.bytes, utf8 world'] ↔
      seed = seed' ∧ id = id' ∧ world = world' := by
  constructor
  · intro same
    obtain ⟨seeds, onward⟩ := Bytes.le64_append_inj same
    simp only [List.flatMap_cons, List.flatMap_nil, List.append_nil] at onward
    obtain ⟨ids, worlds⟩ := framed_append_inj id.short id'.short onward
    exact ⟨seeds, Digest.ext_bytes ids, utf8_injective (framed_inj worlds)⟩
  · rintro ⟨rfl, rfl, rfl⟩
    rfl

theorem derive_eq_iff (purpose : Purpose) :
    derive purpose seed parts = derive purpose seed' parts' ↔
    message seed parts = message seed' parts' ∨
      purpose.Collides (message seed parts) (message seed' parts') := by
  rw [Purpose.Collides, derive, derive]
  by_cases same : message seed parts = message seed' parts'
  · simp [same]
  · simp [same]

/-- A message stands for one seed and one list of parts, and begins another only where its parts
begin the other's. Where the digest does not collide on their messages, different nodes thus have
different identities, different contents different keys, uploaded ones and others among them, and so
have different pairs of a node and a world. -/
theorem messages_stand_apart :
    (∀ seed seed' parts parts', Measured parts → Measured parts' →
      (message seed parts = message seed' parts' ↔ seed = seed' ∧ parts = parts') ∧
      (message seed parts <+: message seed' parts' ↔ seed = seed' ∧ parts <+: parts') ∧
      ∀ purpose : Purpose, derive purpose seed parts = derive purpose seed' parts' ↔
        (seed = seed' ∧ parts = parts') ∨
          purpose.Collides (message seed parts) (message seed' parts')) ∧
    (∀ seed seed' path path', nodeIdOf seed path = nodeIdOf seed' path' ↔
      (seed = seed' ∧ path = path') ∨
        Purpose.nodeId.Collides (message seed [utf8 path]) (message seed' [utf8 path'])) ∧
    (∀ seed seed' id id' upload upload',
      derive .content seed (contentParts id upload) =
        derive .content seed' (contentParts id' upload') ↔
        (seed = seed' ∧ id = id' ∧ upload = upload') ∨
          Purpose.content.Collides (message seed (contentParts id upload))
            (message seed' (contentParts id' upload'))) ∧
    ∀ (id id' : NodeId) (world world' : String),
      derive .existence 0 [id.bytes, utf8 world] = derive .existence 0 [id'.bytes, utf8 world'] ↔
        (id = id' ∧ world = world') ∨
          Purpose.existence.Collides (message 0 [id.bytes, utf8 world])
            (message 0 [id'.bytes, utf8 world']) := by
  refine ⟨fun seed seed' parts parts' measured measured' => ⟨message_eq_iff measured measured',
    message_prefix_iff measured measured', fun purpose => ?_⟩, fun seed seed' path path' => ?_,
    fun seed seed' id id' upload upload' => ?_, fun id id' world world' => ?_⟩
  · rw [derive_eq_iff, message_eq_iff measured measured']
  · rw [nodeIdOf, nodeIdOf, derive_eq_iff, message_path_eq_iff]
  · have parts : contentParts id upload = contentParts id' upload' ↔ id = id' ∧ upload = upload' :=
      ⟨contentParts_inj, by rintro ⟨rfl, rfl⟩; rfl⟩
    rw [derive_eq_iff, message_eq_iff (measured_contentParts id upload)
      (measured_contentParts id' upload'), parts]
  · rw [derive_eq_iff, message_world_eq_iff, eq_self_iff_true, true_and]

theorem imitated_frame_stands_apart :
    Measured [utf8 "a" ++ framed (utf8 "b")] ∧ Measured [utf8 "a", utf8 "b"] ∧
      message 7 [utf8 "a" ++ framed (utf8 "b")] ≠ message 7 [utf8 "a", utf8 "b"] ∧
      ¬ message 7 [utf8 "a", utf8 "b"] <+: message 7 [utf8 "a" ++ framed (utf8 "b")] := by
  have measured : Measured [utf8 "a" ++ framed (utf8 "b")] := by decide +kernel
  have measured' : Measured [utf8 "a", utf8 "b"] := by decide +kernel
  refine ⟨measured, measured', fun same => ?_, fun first => ?_⟩
  · have parts := ((messages_stand_apart.1 7 7 _ _ measured measured').1.mp same).2
    exact absurd parts (by decide +kernel)
  · have parts := ((messages_stand_apart.1 7 7 _ _ measured' measured).2.1.mp first).2
    exact absurd parts (by decide +kernel)

end Messages

end SeedTree
