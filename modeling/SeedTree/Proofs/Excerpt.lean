import SeedTree.Command.Running
import SeedTree.Proofs.Bytes.Dump
import SeedTree.Proofs.Engine.Entering
import SeedTree.Proofs.Engine.Pairs
import SeedTree.Proofs.Frame
import SeedTree.Proofs.Serving

/- Excerpts of what files serve, as they are printed: which bytes an offset and a length select, and
   that naming a file by its path or by its identity prints the same text once the file is on
   record. -/
namespace SeedTree

open Attempt

theorem Draw.fill_length (length : Nat) (words : Words) (i : Nat) :
    ∃ bs, Draw.fill length words i = some (bs, i + (length + 3) / 4) ∧ bs.length = length := by
  have whole :
      ∀ count, ((List.range count).flatMap fun k => Bytes.le32 (words (i + k))).length =
        4 * count := by
    intro count
    induction count with
    | zero => rfl
    | succ count ih =>
      rw [List.range_succ, List.flatMap_append, List.length_append, ih,
        List.flatMap_singleton, Bytes.le32,
        Bytes.length_little]
      omega
  refine ⟨_, rfl, ?_⟩
  rw [List.length_take, whole]
  omega

theorem length_fileContent (id : NodeId) (contentSeed : UInt64) (upload : Option Digest) :
    (fileContent id contentSeed upload).length = fileSize := by
  unfold fileContent
  obtain ⟨bs, filled, size⟩ := Draw.fill_length fileSize
    (ChaCha.words (derive .content contentSeed (contentParts id upload))) 0
  simp only [filled]
  exact size

namespace Engine

def addUpTo (a b : UInt64) : UInt64 := if a + b < a then 0 - 1 else a + b

/-- Where an excerpt of `total` bytes begins and ends, computed in words. -/
def bounds (total offset : UInt64) (length : Option UInt64) : UInt64 × UInt64 :=
  let start := if offset < total then offset else total
  match length with
  | some length =>
    let stop := addUpTo start length
    (start, if stop < total then stop else total)
  | none => (start, total)

theorem addUpTo_toNat (a b : UInt64) :
    (addUpTo a b).toNat = min (a.toNat + b.toNat) (2 ^ 64 - 1) := by
  have small := a.toNat_lt
  have small' := b.toNat_lt
  unfold addUpTo
  split
  · rename_i wraps
    rw [UInt64.lt_iff_toNat_lt, UInt64.toNat_add] at wraps
    change 2 ^ 64 - 1 = _
    omega
  · rename_i fits
    rw [UInt64.lt_iff_toNat_lt, UInt64.toNat_add] at fits
    rw [UInt64.toNat_add]
    omega

theorem slice_eq_bounds {bytes : Bytes} {total : UInt64}
    (size : bytes.length = total.toNat) (offset : UInt64)
    (length : Option UInt64) : (bounds total offset length).1 ≤ (bounds total offset length).2 ∧
      (bounds total offset length).2 ≤ total ∧ slice bytes offset length
        = (bytes.take (bounds total offset length).2.toNat).drop
          (bounds total offset length).1.toNat := by
  have start : (if offset < total then offset else total).toNat = min offset.toNat total.toNat := by
    split
    · rename_i inside
      rw [UInt64.lt_iff_toNat_lt] at inside
      omega
    · rename_i outside
      rw [UInt64.lt_iff_toNat_lt] at outside
      omega
  have dropped : bytes.drop (min offset.toNat total.toNat) = bytes.drop offset.toNat := by
    rcases Nat.le_total offset.toNat total.toNat with inside | outside
    · rw [Nat.min_eq_left inside]
    · rw [Nat.min_eq_right outside, List.drop_of_length_le (by omega),
        List.drop_of_length_le (by omega)]
  cases length with
  | none =>
    refine ⟨?_, UInt64.le_refl _, ?_⟩
    · rw [bounds, UInt64.le_iff_toNat_le, start]
      exact Nat.min_le_right _ _
    · simp only [bounds, start]
      rw [← size, List.take_length, size, dropped]
      rfl
  | some length =>
    obtain ⟨start', same⟩ : ∃ start', start' = if offset < total then offset else total := ⟨_, rfl⟩
    have stop := addUpTo_toNat start' length
    have bound := total.toNat_lt
    rw [← same] at start
    have stop' : (if addUpTo start' length < total then addUpTo start' length else total).toNat
        = min (start'.toNat + length.toNat) total.toNat := by
      split
      · rename_i inside
        rw [UInt64.lt_iff_toNat_lt] at inside
        omega
      · rename_i outside
        rw [UInt64.lt_iff_toNat_lt] at outside
        omega
    simp only [bounds, ← same]
    rw [UInt64.le_iff_toNat_le, UInt64.le_iff_toNat_le, stop', start]
    refine ⟨by omega, by omega, ?_⟩
    rw [← start, List.drop_take, start, dropped]
    change (bytes.drop offset.toNat).take length.toNat = _
    rw [List.take_eq_take_iff, List.length_drop]
    omega

theorem slice_append (bytes : Bytes) {offset first second : UInt64}
    (fits : offset.toNat + first.toNat < 2 ^ 64) (fits' : first.toNat + second.toNat < 2 ^ 64) :
    slice bytes offset (some first) ++ slice bytes (offset + first) (some second)
      = slice bytes offset (some (first + second)) := by
  have next : (offset + first).toNat = offset.toNat + first.toNat := by
    rw [UInt64.toNat_add, Nat.mod_eq_of_lt fits]
  have both : (first + second).toNat = first.toNat + second.toNat := by
    rw [UInt64.toNat_add, Nat.mod_eq_of_lt fits']
  simp only [slice]
  rw [next, both, ← List.drop_drop, List.take_add]

/-- A text shows the bytes of `content` from an offset on, as many as asked for. It reads back as
these bytes, and neither the labels of its lines nor the bounds that were computed leave their words
or the content. -/
structure Excerpt (content : Bytes) (offset : UInt64) (length : Option UInt64)
    (shown : String) : Prop where
  reads : ∃ entries, Dump.Reads shown offset.toNat
    ((content.drop offset.toNat).take ((length.map UInt64.toNat).getD content.length)) entries ∧
      ∀ i entry, entries[i]? = some entry → offset.toNat + 16 * i < 2 ^ 64
  bounded : ∃ total, total.toNat = content.length ∧ (bounds total offset length).1 ≤
    (bounds total offset length).2 ∧
    (bounds total offset length).2 ≤ total ∧ slice content offset length
      = (content.take (bounds total offset length).2.toNat).drop
        (bounds total offset length).1.toNat

theorem slice_eq_take (content : Bytes) (offset : UInt64) (length : Option UInt64) :
    slice content offset length
    = (content.drop offset.toNat).take ((length.map UInt64.toNat).getD content.length) := by
  cases length with
  | some length => rfl
  | none =>
    change content.drop offset.toNat = _
    rw [Option.map_none, Option.getD_none, List.take_of_length_le]
    rw [List.length_drop]
    exact Nat.sub_le _ _

theorem excerpt_text {content : Bytes} (size : content.length = 1024) (offset : UInt64)
    (length : Option UInt64) :
    Excerpt content offset length (Dump.text (slice content offset length) offset.toNat) where
  reads := by
    obtain ⟨entries, reads⟩ := Dump.reads_text (slice content offset length) offset.toNat
    refine ⟨entries, by rw [← slice_eq_take]; exact reads, fun i entry there => ?_⟩
    obtain ⟨some, row⟩ := reads.row i entry there
    have filled : 0 < entry.bytes.length := List.length_pos_iff.mpr some
    rw [row, slice_eq_take, List.length_take, List.length_drop, List.length_take,
      List.length_drop, size] at filled
    omega
  bounded := ⟨1024, size.symm, slice_eq_bounds size offset length⟩

end Engine

namespace Session

variable {scope : Scope} {a : Session} {site : Site} {n k : Node}
  {input text : String} {world other : World}

section Looking

variable (sound : a.Sound scope) (here : site.store = a.store) (timely : site.Timely)
  (answered : ((a.engine.getNode input world).runOn site).1 = .ok n)

include sound here timely answered

theorem Sound.looked_up : ∃ k, (a.after (.getNode input world) site).store.Holds k ∧
    n.Aged a.engine.materializer k := by
  have wf := sound.valid.wellFormed
  rw [← here] at wf
  have ends : (a.engine.getNode input world).Ends
    (Setting.alone scope a.engine.materializer.parameters) []
      site.store _ := ends_getNode wf sound.valid.ready
  have known := (ends.runOn timely).answer
  rw [answered] at known
  obtain ⟨_, _, u, before, holds, after, _⟩ := known.of_ok
  have within := sound.valid.ready.within
  have middle := before.wellFormed within wf
  have ages := after.ages within middle fun _ walks => Deed.passes_of_walks walks n.path
  rw [holds] at ages
  generalize there : Store.record? _ n.path = found at ages
  cases ages with
  | aged aged => exact ⟨_, ((after.wellFormed within middle).holds there).1, aged⟩

theorem Sound.answers_record (holds : a.store.Holds k) (place : k.path = n.path) :
    k.Aged a.engine.materializer n := by
  have wf := sound.valid.wellFormed
  rw [← here] at wf
  have ages := ages_getNode wf sound.valid.ready timely answered
  rw [here, ← place, holds] at ages
  cases ages with
  | aged aged => exact aged

end Looking

theorem content_aged {m : Materializer} (e : Engine) (aged : n.Aged m k) :
    e.content k = e.content n := by
  rw [Engine.content, Engine.content, aged.like.place.id, aged.like.upload]

theorem Sound.range_read (sound : a.Sound scope) (holds : a.store.Holds k)
    (isFile : k.isFolder = false) (here : site.store = a.store) (timely : site.Timely)
    (distinct : Store.Distinct a.engine.config.parameters.seed a.paths) (offset : UInt64)
    (length : Option UInt64) : ((a.engine.readRange k.id offset length).runOn site).1
      = .ok (Engine.slice (a.engine.content k) offset length) := by
  have served := (sound.serves_content holds isFile).read site here timely distinct
  unfold Engine.readRange
  rw [runOn_bind, served]
  rfl

theorem shown_of_target {e : Engine} {id : NodeId} {byId : Bool} {between : Site} {offset : UInt64}
    {length : Option UInt64} {answer : Except Failure Bytes}
    (target : (e.targetId world input byId).runOn site = (.ok id, between))
    (read : ((e.readRange id offset length).runOn between).1 = answer) (disk : Disk) :
    ((Command.run e world disk (.show input byId offset length none)).runOn site).1
      = answer.map fun bytes => (Dump.text bytes offset.toNat, disk) := by
  change ((e.targetId world input byId >>= fun id => e.readRange id offset length >>= fun bytes =>
    pure (Dump.text bytes offset.toNat, disk)).runOn site).1 = _
  rw [runOn_bind, target]
  simp only [follow]
  rw [runOn_bind, read]
  cases answer <;> rfl

theorem target_by_id {id : NodeId} (spells : Digest.Spells text id) (e : Engine)
    (world : World) (site : Site) : (e.targetId world text true).runOn site = (.ok id, site) := by
  have named : e.targetId world text true = pure id := by
    simp only [Engine.targetId, if_true, Digest.ofHex?_trim spells]
  rw [named]
  rfl

theorem target_by_path {e : Engine} (answered : ((e.getNode input world).runOn site).1 = .ok n)
    (isFile : n.isFolder = false) :
    (e.targetId world input false).runOn site =
      (.ok n.id, ((e.getNode input world).runOn site).2) := by
  change ((e.getNode input world >>= fun n => if n.isFolder then throw (.isADirectory n.path)
    else pure n.id).runOn site) = _
  rw [runOn_bind, answered]
  simp only [follow, isFile, Bool.false_eq_true, if_false]
  rfl

theorem Sound.prints_by_id (sound : a.Sound scope) (holds : a.store.Holds k)
    (isFile : k.isFolder = false) (here : site.store = a.store) (timely : site.Timely)
    (distinct : Store.Distinct a.engine.config.parameters.seed a.paths)
    (spells : Digest.Spells text k.id) (offset : UInt64) (length : Option UInt64) (disk : Disk) :
    ((Command.run a.engine world disk (.show text true offset length none)).runOn site).1
      = .ok (Dump.text (Engine.slice (a.engine.content k) offset length) offset.toNat, disk) :=
  shown_of_target (target_by_id spells _ _ _)
    (sound.range_read holds isFile here timely distinct offset length) disk

theorem fails_by_id {id : NodeId} (valid : a.Valid scope)
    (unknown : ∀ k, a.store.Holds k → k.id ≠ id)
    (here : site.store = a.store) (timely : site.Timely)
    (spells : Digest.Spells text id) (offset : UInt64) (length : Option UInt64) (disk : Disk) :
    ((Command.run a.engine world disk (.show text true offset length none)).runOn site).1
      = .error (.notFound (.id id)) := by
  have wf := valid.wellFormed
  rw [← here] at wf
  have ends : (a.engine.readRange id offset length).Ends
      (Setting.alone scope a.engine.materializer.parameters) [] site.store _ :=
    ends_readRange wf valid.ready id offset length
  obtain ⟨_, whole, read, answered⟩ := ends.runOn timely
  have missing : whole = .error (.notFound (.id id)) := by
    rw [here] at read
    cases read with
    | missing => rfl
    | folder holds same => exact absurd same (unknown _ holds)
    | file holds same => exact absurd same (unknown _ holds)
  rw [missing] at answered
  exact shown_of_target (target_by_id spells _ _ _) answered disk

theorem Sound.prints_by_path (sound : a.Sound scope)
    (here : site.store = a.store) (timely : site.Timely)
    (answered : ((a.engine.getNode input world).runOn site).1 = .ok n) (isFile : n.isFolder = false)
    (distinct : Store.Distinct a.engine.config.parameters.seed
      (a.after (.getNode input world) site).paths)
    (offset : UInt64) (length : Option UInt64) (disk : Disk) :
    ((Command.run a.engine world disk (.show input false offset length none)).runOn site).1
      = .ok (Dump.text (Engine.slice (a.engine.content n) offset length) offset.toNat, disk) := by
  obtain ⟨k, holds, aged⟩ := sound.looked_up here timely answered
  have fits : (Operation.getNode input world).Fits := Operation.fits_of_reads trivial
  have later : (a.after (.getNode input world) site).Sound scope :=
    sound.turn (.operates _ fits here timely)
  have onward : ((a.engine.getNode input world).runOn site).2.Timely := timely.run _
  have read :=
    later.range_read holds (aged.like.isFolder.trans isFile) rfl onward distinct offset length
  rw [aged.like.place.id] at read
  rw [← content_aged a.engine aged]
  exact shown_of_target (target_by_path answered isFile) read disk

theorem Sound.id_unknown (sound : a.Sound scope)
    (here : site.store = a.store) (timely : site.Timely)
    (answered : ((a.engine.getNode input world).runOn site).1 = .ok n)
    (distinct : Store.Distinct a.engine.config.parameters.seed
      (a.after (.getNode input world) site).paths)
    (absent : a.store.record? n.path = none) : ∀ l, a.store.Holds l → l.id ≠ n.id := by
  intro l stands same
  obtain ⟨k, holds, aged⟩ := sound.looked_up here timely answered
  have fits : (Operation.getNode input world).Fits := Operation.fits_of_reads trivial
  have later : (a.after (.getNode input world) site).Sound scope :=
    sound.turn (.operates _ fits here timely)
  rw [sound.valid.ready.config] at distinct
  have early := (sound.valid.tracked distinct.left).within l stands
  have late := (later.valid.tracked distinct).within k holds
  have same_id : l.id = k.id := same.trans aged.like.place.id.symm
  rw [(sound.valid.wellFormed.shaped stands).id,
    (later.valid.wellFormed.shaped holds).id] at same_id
  have path := distinct _ (List.mem_append_left _ early) _ late same_id
  rw [Store.Holds, path, aged.like.place.path, absent] at stands
  cases stands

/-- A file that a world shows prints the same excerpt by its path and, as soon as it is on record,
by its identity in any spelling; until then its identity is not found. -/
theorem excerpt_printed (reached : a.Reached scope)
    (here : site.store = a.store) (timely : site.Timely)
    (distinct : Store.Distinct a.engine.config.parameters.seed
      (a.after (.getNode input world) site).paths)
    (answered : ((a.engine.getNode input world).runOn site).1 = .ok n) (isFile : n.isFolder = false)
    (spells : Digest.Spells text n.id) (offset : UInt64) (length : Option UInt64) (disk : Disk) :
    ∃ content shown, content = fileContent n.id a.engine.config.parameters.contentSeed n.upload ∧
      content.length = 1024 ∧ Engine.Excerpt content offset length shown ∧
      ((Command.run a.engine world disk (.show input false offset length none)).runOn site).1 =
        .ok (shown, disk) ∧
      (∀ b, (b = a ∧ a.store.record? n.path ≠ none ∨ b = a.after (.getNode input world) site) →
        ∀ (other : World) (there : Site), there.store = b.store → there.Timely →
          ((Command.run a.engine other disk (.show text true offset length none)).runOn there).1
            = .ok (shown, disk)) ∧
      (a.store.record? n.path = none →
        ∀ (other : World) (there : Site), there.store = a.store → there.Timely →
        ((Command.run a.engine other disk (.show text true offset length none)).runOn there).1
          = .error (.notFound (.id n.id))) ∧
      ∀ start first second : UInt64, start.toNat + first.toNat < 2 ^ 64 →
        first.toNat + second.toNat < 2 ^ 64 →
        Engine.slice content start (some first) ++
          Engine.slice content (start + first) (some second)
          = Engine.slice content start (some (first + second)) := by
  have sound := reached.sound
  have fits : (Operation.getNode input world).Fits := Operation.fits_of_reads trivial
  have later : (a.after (.getNode input world) site).Sound scope :=
    sound.turn (.operates _ fits here timely)
  have size : (a.engine.content n).length = 1024 := length_fileContent _ _ _
  obtain ⟨k, holds, aged⟩ := sound.looked_up here timely answered
  refine ⟨a.engine.content n, _, rfl, size, Engine.excerpt_text size offset length,
    sound.prints_by_path here timely answered isFile distinct offset length disk, ?_, ?_,
    fun start first second fits fits' => Engine.slice_append _ fits fits'⟩
  · rintro b (⟨rfl, there⟩ | rfl) other site' here' timely'
    · obtain ⟨l, found⟩ := Option.ne_none_iff_exists'.mp there
      obtain ⟨stands, place'⟩ := sound.valid.wellFormed.holds found
      have early := sound.answers_record here timely answered stands place'
      rw [content_aged b.engine early]
      rw [early.like.place.id] at spells
      exact sound.prints_by_id stands
        (early.like.isFolder.symm.trans isFile) here' timely' distinct.left spells
        offset length disk
    · rw [← content_aged a.engine aged]
      rw [← aged.like.place.id] at spells
      exact later.prints_by_id holds
        (aged.like.isFolder.trans isFile) here' timely' distinct spells offset length
        disk
  · intro absent other site' here' timely'
    have unknown := sound.id_unknown here timely answered distinct absent
    exact fails_by_id sound.valid unknown here' timely' spells offset length disk

theorem answers_file (path : String) (answer : Except Failure Node)
    (runs : (answer.toOption.any fun n => n.path = path && !n.isFolder) = true) :
    ∃ n, answer = .ok n ∧ n.path = path ∧ n.isFolder = false := by
  cases answer with
  | error failure => cases runs
  | ok n =>
    have known : (decide (n.path = path) && !n.isFolder) = true := runs
    rw [Bool.and_eq_true, decide_eq_true_iff, Bool.not_eq_true'] at known
    exact ⟨n, rfl, known⟩

theorem newFile_printed : ∃ n shown, newFile.Reached .bare ∧
    ((newFile.engine.getNode "/a" .primary).runOn (.still newFile.store)).1 =
      .ok n ∧ n.isFolder = false ∧
    Engine.Excerpt (newFile.engine.content n) 0 (some 16) shown ∧
    ((Command.run newFile.engine .primary {} (.show "/a" false 0 (some 16) none)).runOn
      (.still newFile.store)).1 = .ok (shown, {}) ∧
    ((Command.run newFile.engine (.named "dim") {} (.show n.id.toHex true 0 (some 16) none)).runOn
      (.still newFile.store)).1 = .ok (shown, {}) := by
  obtain ⟨n, answered, place, isFile⟩ := answers_file "/a"
    ((newFile.engine.getNode "/a" .primary).runOn (.still newFile.store)).1 (by decide +kernel)
  have distinct : Store.Distinct newFile.engine.config.parameters.seed
      (newFile.after (.getNode "/a" .primary) (.still newFile.store)).paths := by
    decide +kernel
  have recorded : newFile.store.record? n.path ≠ none := by
    rw [place]
    have there : (newFile.store.record? "/a").isSome = true := by decide +kernel
    exact Option.isSome_iff_ne_none.mp there
  obtain ⟨content, shown, rfl, _, excerpt, byPath, byId, _⟩ :=
    excerpt_printed newFile_upload.reached
      (Site.still_store _) (Site.still_timely _) distinct answered isFile
        (Digest.spells_toHex n.id) 0 (some 16) {}
  exact ⟨n, shown, newFile_upload.reached, answered, isFile, excerpt, byPath,
    byId _ (Or.inl ⟨rfl, recorded⟩) _ _ (Site.still_store _) (Site.still_timely _)⟩

/-- Before it is looked up, a file of a new tree prints by its path and not by its identity. -/
theorem newTree_unknown_by_id : ∃ n shown, newTree.Reached .bare ∧
    ((newTree.engine.getNode "/harbor.txt" .primary).runOn (.still newTree.store)).1 = .ok n ∧
    n.isFolder = false ∧
    ((Command.run newTree.engine .primary {} (.show "/harbor.txt" false 0 none none)).runOn
      (.still newTree.store)).1 = .ok (shown, {}) ∧
    ((Command.run newTree.engine .primary {} (.show n.id.toHex true 0 none none)).runOn
      (.still newTree.store)).1 = .error (.notFound (.id n.id)) := by
  have reached : newTree.Reached .bare := ⟨_, newTree_begins, .none _⟩
  obtain ⟨n, answered, place, isFile⟩ := answers_file "/harbor.txt"
    ((newTree.engine.getNode "/harbor.txt" .primary).runOn (.still newTree.store)).1
      (by decide +kernel)
  have distinct : Store.Distinct newTree.engine.config.parameters.seed
      (newTree.after (.getNode "/harbor.txt" .primary) (.still newTree.store)).paths := by
    decide +kernel
  have absent : newTree.store.record? n.path = none := by
    rw [place]
    have missing : (newTree.store.record? "/harbor.txt").isNone = true := by decide +kernel
    exact Option.isNone_iff_eq_none.mp missing
  have sound := reached.sound
  have unknown :=
    sound.id_unknown (Site.still_store _) (Site.still_timely _) answered distinct absent
  exact ⟨n, _, reached, answered, isFile,
    sound.prints_by_path (Site.still_store _)
      (Site.still_timely _) answered isFile distinct 0 none {},
    fails_by_id sound.valid unknown (Site.still_store _) (Site.still_timely _)
      (Digest.spells_toHex n.id) 0 none {}⟩

end Session

end SeedTree
