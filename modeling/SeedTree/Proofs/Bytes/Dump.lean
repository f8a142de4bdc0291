import Mathlib.Data.List.Induction
import SeedTree.Bytes.Dump
import SeedTree.Proofs.Bytes.Hex
import SeedTree.Proofs.Path.Normalizing

/- The dump of a byte string read back, line by line: a place in hexadecimal, pairs of digits, and
   the printable characters beside them. -/
namespace SeedTree

namespace Bytes

theorem getElem?_pieces {size fuel : Nat} {bs : Bytes} (enough : bs.length ≤ fuel)
    (some : 0 < size) (i : Nat) : (pieces size fuel bs)[i]?
      = if size * i < bs.length then Option.some ((bs.drop (size * i)).take size) else none := by
  induction fuel generalizing bs i with
  | zero =>
    have empty : bs.length = 0 := by omega
    simp [pieces, empty]
  | succ fuel ih =>
    unfold pieces
    split
    · rename_i none
      rw [List.isEmpty_iff.mp none]
      simp
    · rename_i more
      have filled : 0 < bs.length := by
        rw [List.length_pos_iff]
        exact fun none => more (List.isEmpty_iff.mpr none)
      have fewer : (bs.drop size).length ≤ fuel := by
        rw [List.length_drop]
        omega
      have rest := ih fewer
      cases i with
      | zero => simp [filled]
      | succ i =>
        have place : size + size * i = size * (i + 1) := by rw [Nat.mul_succ, Nat.add_comm]
        have later : size * i < bs.length - size ↔ size * (i + 1) < bs.length := by omega
        rw [List.getElem?_cons_succ, rest, List.length_drop, List.drop_drop, place]
        simp only [later]

theorem flatten_pieces {size fuel : Nat} {bs : Bytes}
    (enough : bs.length ≤ fuel) (some : 0 < size) : (pieces size fuel bs).flatten = bs := by
  induction fuel generalizing bs with
  | zero => rw [List.length_eq_zero_iff.mp (Nat.le_zero.mp enough)]; rfl
  | succ fuel ih =>
    unfold pieces
    split
    · rename_i none
      rw [List.isEmpty_iff.mp none]
      rfl
    · rename_i more
      have filled : bs.length ≠ 0 :=
        fun none => more (List.isEmpty_iff.mpr (List.length_eq_zero_iff.mp none))
      rw [List.flatten_cons, ih (by rw [List.length_drop]; omega), List.take_append_drop]

def hexNumber? (digits : List Char) : Option Nat :=
  digits.foldlM (fun n c => (hexValue? c).map (16 * n + ·)) 0

theorem hexNumber?_concat (digits : List Char) (c : Char) : hexNumber? (digits ++ [c])
    = (hexNumber? digits).bind fun n => (hexValue? c).map (16 * n + ·) := by
  unfold hexNumber?
  rw [List.foldlM_append]
  cases digits.foldlM (fun n c => (hexValue? c).map (16 * n + ·)) 0 with
  | none => rfl
  | some n =>
    change ((hexValue? c).map (16 * n + ·)).bind pure = _
    rw [Option.bind_some]
    cases (hexValue? c).map (16 * n + ·) <;> rfl

theorem hexNumber?_zeros (count : Nat) (digits : List Char) :
    hexNumber? (List.replicate count '0' ++ digits) = hexNumber? digits := by
  induction count with
  | zero => rfl
  | succ count ih => exact ih

theorem hexNumber?_toDigits (n : Nat) : hexNumber? (Nat.toDigits 16 n) = some n := by
  have digit : ∀ d < 16, hexValue? (Nat.digitChar d) = some d := by decide
  induction n using Nat.strongRecOn with
  | ind n ih =>
    rw [Nat.toDigits_eq_if (by decide : 1 < 16)]
    split
    · rename_i small
      change (hexValue? (Nat.digitChar n)).map (16 * 0 + ·) >>= pure = _
      rw [digit n small]
      simp
    · rw [hexNumber?_concat, ih (n / 16) (by omega), Option.bind_some,
        digit _ (by omega), Option.map_some,
        Nat.div_add_mod]

end Bytes

namespace Dump

structure Entry where
  label : List Char
  bytes : Bytes
  gutter : List Char

def between? : List Char → Option (List Char)
  | ' ' :: ' ' :: '|' :: cs => if cs.getLast? = some '|' then some cs.dropLast else none
  | _ => none

def Entry.of (place : Nat) (row : Bytes) : Entry := ⟨placeText place, row, row.map gutterChar⟩

/-- A line taken apart at its first blank and after the columns of the pairs. -/
def entry? (line : List Char) : Option Entry := do
  let (label, rest) ← Text.splitFirst? ' ' line
  let body := rest.drop 1
  let bytes ← Bytes.ofHexChars? ((body.take pairsWidth).filter (· ≠ ' '))
  let gutter ← between? (body.drop pairsWidth)
  return ⟨label, bytes, gutter⟩

def lines (text : String) : List (List Char) := (Text.splitOn '\n' text.toList).dropLast

theorem placeText_digits {place : Nat} {c : Char} (member : c ∈ placeText place) :
    c ∈ "0123456789abcdef".toList := by
  have digit : ∀ d < 16, Nat.digitChar d ∈ "0123456789abcdef".toList := by decide
  have digits : ∀ n, ∀ c ∈ Nat.toDigits 16 n, c ∈ "0123456789abcdef".toList := by
    intro n
    induction n using Nat.strongRecOn with
    | ind n ih =>
      intro c member
      rw [Nat.toDigits_eq_if (by decide : 1 < 16)] at member
      split at member
      · rename_i small
        rw [List.mem_singleton.mp member]
        exact digit n small
      · rcases List.mem_append.mp member with early | last
        · exact ih (n / 16) (by omega) c early
        · rw [List.mem_singleton.mp last]
          exact digit _ (by omega)
  rcases List.mem_append.mp member with zero | inside
  · rw [(List.mem_replicate.mp zero).2]
    decide
  · exact digits place c inside

theorem hexNumber?_placeText (place : Nat) : Bytes.hexNumber? (placeText place) = some place := by
  rw [placeText, Bytes.hexNumber?_zeros, Bytes.hexNumber?_toDigits]

theorem length_placeText (place : Nat) :
    (placeText place).length = max 8 (Nat.toDigits 16 place).length := by
  rw [placeText, List.length_append, List.length_replicate]
  omega

theorem joinWith_cons_cons (separator first next : List Char) (more : List (List Char)) :
    Text.joinWith separator (first :: next :: more)
      = first ++ separator ++ Text.joinWith separator (next :: more) := rfl

theorem filter_pairsText (row : Bytes) :
    (pairsText row).filter (· ≠ ' ') = row.flatMap Bytes.hexPair := by
  have pair : ∀ b, (Bytes.hexPair b).filter (· ≠ ' ') = Bytes.hexPair b := fun b =>
    List.filter_eq_self.mpr fun c member => by simpa using (Bytes.plain_hexPair member).1
  unfold pairsText
  induction row with
  | nil => rfl
  | cons b row ih =>
    cases row with
    | nil => simpa [Text.joinWith] using pair b
    | cons next row =>
      rw [List.map_cons] at ih ⊢
      rw [List.map_cons, joinWith_cons_cons, List.filter_append, List.filter_append, pair, ih]
      simp

theorem length_pairsText (row : Bytes) : (pairsText row).length = 3 * row.length - 1 := by
  unfold pairsText
  induction row with
  | nil => rfl
  | cons b row ih =>
    cases row with
    | nil => rfl
    | cons next row =>
      rw [List.map_cons] at ih ⊢
      rw [List.map_cons, joinWith_cons_cons, List.length_append, List.length_append, ih]
      simp only [Bytes.hexPair, List.length_cons, List.length_nil]
      omega

theorem plain_pairsText (row : Bytes) : '\n' ∉ pairsText row := by
  intro member
  have kept : '\n' ∈ row.flatMap Bytes.hexPair := by
    rw [← filter_pairsText]
    exact List.mem_filter.mpr ⟨member, by decide⟩
  obtain ⟨b, _, inside⟩ := List.mem_flatMap.mp kept
  exact (Bytes.plain_hexPair inside).2 rfl

theorem gutterChar_toNat (b : UInt8) :
    (gutterChar b).toNat = if 0x20 ≤ b.toNat ∧ b.toNat ≤ 0x7E then b.toNat else '.'.toNat := by
  have exact : ∀ n < 256, (Char.ofNat n).toNat = n := by decide +kernel
  unfold gutterChar
  simp only [Bool.and_eq_true, decide_eq_true_eq]
  split
  · exact exact _ b.toNat_lt
  · rfl

theorem gutterChar_printable (b : UInt8) :
    (gutterChar b).toNat = b.toNat ↔ 0x20 ≤ b.toNat ∧ b.toNat ≤ 0x7E := by
  have point : '.'.toNat = 46 := rfl
  rw [gutterChar_toNat]
  split <;> omega

theorem gutterChar_point {b : UInt8} (other : (gutterChar b).toNat ≠ b.toNat) :
    gutterChar b = '.' := by
  rw [ne_eq, gutterChar_printable] at other
  simp only [gutterChar, Bool.and_eq_true, decide_eq_true_eq]
  exact if_neg other

theorem gutterChar_ne (b : UInt8) : gutterChar b ≠ '\n' := by
  have known := gutterChar_toNat b
  intro same
  rw [same] at known
  have ended : '\n'.toNat = 10 := rfl
  have point : '.'.toNat = 46 := rfl
  split at known <;> omega

theorem plain_line (place : Nat) (row : Bytes) : '\n' ∉ line place row := by
  have label : '\n' ∉ placeText place := fun member => absurd (placeText_digits member) (by decide)
  simp only [line, List.mem_append, List.mem_cons, List.mem_map, List.mem_replicate, not_or]
  refine ⟨⟨⟨⟨⟨⟨label, by decide⟩, plain_pairsText row⟩, by simp⟩, by decide⟩, ?_⟩, by decide⟩
  rintro ⟨b, _, same⟩
  exact gutterChar_ne b same

theorem entry?_line {row : Bytes} (short : row.length ≤ lineSize) (place : Nat) :
    entry? (line place row) = some (.of place row) := by
  have size : lineSize = 16 := rfl
  have width : pairsWidth = 47 := rfl
  have label : ' ' ∉ placeText place := fun member => absurd (placeText_digits member) (by decide)
  have pairs := length_pairsText row
  obtain ⟨field, filled⟩ : ∃ field, field = pairsText row ++
    List.replicate (pairsWidth - (pairsText row).length) ' ' :=
    ⟨_, rfl⟩
  have columns : field.length = pairsWidth := by
    rw [filled, List.length_append, List.length_replicate]
    omega
  have digits : field.filter (· ≠ ' ') = row.flatMap Bytes.hexPair := by
    have blanks : ∀ count, (List.replicate count ' ').filter (· ≠ ' ') = [] := fun count => by simp
    rw [filled, List.filter_append, filter_pairsText, blanks, List.append_nil]
  have whole : line place row = placeText place
      ++ ' ' :: ' ' :: (field ++ (' ' :: ' ' :: '|' :: (row.map gutterChar ++ ['|']))) := by
    simp [line, filled]
  have last : (row.map gutterChar ++ ['|']).getLast? = some '|' := List.getLast?_concat
  rw [whole, entry?, Text.splitFirst?_append label]
  simp only [Option.bind_eq_bind, Option.bind_some, List.drop_succ_cons, List.drop_zero, ← columns,
    List.take_left, List.drop_left, digits, Bytes.ofHexChars?_pairs, between?, last, if_true,
    List.dropLast_concat]
  rfl

theorem splitOn_ended {ls : List (List Char)} (plain : ∀ l ∈ ls, '\n' ∉ l) :
    Text.splitOn '\n' (ls.flatMap fun l => l ++ ['\n']) = ls ++ [[]] := by
  induction ls with
  | nil => rfl
  | cons l ls ih =>
    rw [List.flatMap_cons, List.append_assoc, List.singleton_append,
      Text.splitOn_append (plain l (by simp)),
      ih fun other member => plain other (List.mem_cons_of_mem _ member)]
    rfl

theorem plain_linesFrom {place : Nat} {rows : List Bytes} {l : List Char}
    (member : l ∈ linesFrom place rows) : '\n' ∉ l := by
  induction rows generalizing place with
  | nil => cases member
  | cons row rows ih =>
    rcases List.mem_cons.mp member with rfl | later
    · exact plain_line place row
    · exact ih later

theorem lines_text (bs : Bytes) (offset : Nat) :
    lines (text bs offset) = linesFrom offset (bs.chunks lineSize) := by
  rw [lines, text, String.toList_ofList,
    splitOn_ended fun _ => plain_linesFrom, List.dropLast_concat]

theorem map_entry?_linesFrom {rows : List Bytes}
    (short : ∀ row ∈ rows, row.length ≤ lineSize) (place : Nat) : (linesFrom place rows).map entry?
      = rows.mapIdx fun i row => some (.of (place + lineSize * i) row) := by
  induction rows generalizing place with
  | nil => rfl
  | cons row rows ih =>
    have next : ∀ i, place + lineSize + lineSize * i = place + lineSize * (i + 1) := fun i => by
      rw [Nat.mul_succ]
      omega
    rw [linesFrom, List.map_cons, entry?_line (short row (by simp)),
      ih fun other member => short other (List.mem_cons_of_mem _ member), List.mapIdx_cons]
    simp only [next]
    rfl

/-- A text that reads, line by line, as `bytes` from the place `offset` on. -/
structure Reads (text : String) (offset : Nat) (bytes : Bytes) (entries : List Entry) : Prop where
  read : (lines text).map entry? = entries.map some
  whole : entries.flatMap Entry.bytes = bytes
  row : ∀ i entry, entries[i]? = some entry →
    entry.bytes ≠ [] ∧ entry.bytes = (bytes.drop (16 * i)).take 16
  label : ∀ i entry, entries[i]? = some entry →
    Bytes.hexNumber? entry.label = some (offset + 16 * i) ∧
    8 ≤ entry.label.length ∧ ∀ c ∈ entry.label, c ∈ "0123456789abcdef".toList
  gutter : ∀ entry ∈ entries, entry.gutter.length = entry.bytes.length ∧
    ∀ (j : Nat) (b : UInt8), entry.bytes[j]? = some b → ∃ c, entry.gutter[j]? = some c ∧
      (c.toNat = b.toNat ↔ 0x20 ≤ b.toNat ∧ b.toNat ≤ 0x7E) ∧ (c.toNat ≠ b.toNat → c = '.')

theorem getElem?_rows (bs : Bytes) (i : Nat) : (bs.chunks lineSize)[i]?
    = if 16 * i < bs.length then some ((bs.drop (16 * i)).take 16) else none :=
  Bytes.getElem?_pieces (Nat.le_refl _) (by decide) i

theorem length_row_le {bs row : Bytes} (member : row ∈ bs.chunks lineSize) :
    row.length ≤ lineSize := by
  obtain ⟨i, found⟩ := List.getElem?_of_mem member
  rw [getElem?_rows] at found
  split at found
  · rw [← Option.some.inj found, List.length_take]
    exact Nat.min_le_left _ _
  · cases found

theorem row_ne_nil {bs row : Bytes} {i : Nat} (there : (bs.chunks lineSize)[i]? = some row) :
    row ≠ [] ∧ row = (bs.drop (16 * i)).take 16 := by
  rw [getElem?_rows] at there
  split at there
  · rename_i inside
    have same := Option.some.inj there
    refine ⟨?_, same.symm⟩
    rintro rfl
    have size := congrArg List.length same
    rw [List.length_take, List.length_drop, List.length_nil] at size
    omega
  · cases there

theorem reads_text (bs : Bytes) (offset : Nat) :
    ∃ entries, Reads (text bs offset) offset bs entries := by
  obtain ⟨entries, made⟩ : ∃ entries, entries = (bs.chunks lineSize).mapIdx fun i row =>
      Entry.of (offset + 16 * i) row := ⟨_, rfl⟩
  have entry : ∀ i, entries[i]? = (bs.chunks lineSize)[i]?.map (Entry.of (offset + 16 * i)) :=
    fun i => by
      rw [made, List.getElem?_mapIdx]
  have known : ∀ i e, entries[i]? = some e →
      ∃ row, (bs.chunks lineSize)[i]? = some row ∧ e = Entry.of (offset + 16 * i) row := by
    intro i e found
    rw [entry] at found
    obtain ⟨row, there, same⟩ := Option.map_eq_some_iff.mp found
    exact ⟨row, there, same.symm⟩
  refine ⟨entries, ?_, ?_, ?_, ?_, ?_⟩
  · refine List.ext_getElem? fun i => ?_
    rw [lines_text, map_entry?_linesFrom fun _ member => length_row_le member, List.getElem?_mapIdx,
      List.getElem?_map, entry, Option.map_map]
    rfl
  · have bytes : entries.map Entry.bytes = bs.chunks lineSize := by
      refine List.ext_getElem? fun i => ?_
      rw [List.getElem?_map, entry, Option.map_map]
      exact Option.map_id_apply
    rw [List.flatMap_def, bytes]
    exact Bytes.flatten_pieces (Nat.le_refl _) (by decide)
  · intro i e found
    obtain ⟨row, there, rfl⟩ := known i e found
    exact row_ne_nil there
  · intro i e found
    obtain ⟨row, _, rfl⟩ := known i e found
    refine ⟨hexNumber?_placeText _, ?_, fun c => placeText_digits⟩
    rw [Entry.of, length_placeText]
    exact Nat.le_max_left _ _
  · intro e member
    obtain ⟨i, found⟩ := List.getElem?_of_mem member
    obtain ⟨row, _, rfl⟩ := known i e found
    refine ⟨List.length_map _,
      fun j b there => ⟨gutterChar b, ?_, gutterChar_printable b, gutterChar_point⟩⟩
    rw [Entry.of] at there ⊢
    rw [List.getElem?_map, there, Option.map_some]

end Dump

end SeedTree
