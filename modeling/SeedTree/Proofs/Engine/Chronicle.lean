import SeedTree.Proofs.Engine.Ends
import SeedTree.Proofs.Store.Lawful

/- A store that many programs share. A chronicle holds all that the store has been; while a program
   holds the lock of a path, nobody else removes what is there or puts anything into it. -/
namespace SeedTree

/-- A store as it is now and as it was before, the latest first. -/
structure Chronicle where
  now : Store
  past : List Store

namespace Store

def Has (s : Store) (path : String) (isFolder : Bool) : Prop :=
  ∃ n, s.record? path = some n ∧ n.isFolder = isFolder

def Bare (s : Store) (path : String) : Prop := ∀ n, s.Holds n → n.parent ≠ some path

structure Stays (s t : Store) (path : String) : Prop where
  kind : ∀ isFolder, s.Has path isFolder → t.Has path isFolder
  bare : s.Bare path → t.Bare path

end Store

namespace Chronicle

variable {scope : Scope} {p : Parameters} {b c d : Chronicle} {s t : Store} {held : List String}
  {path : String}

def moments (c : Chronicle) : List Store := c.now :: c.past

def next (c : Chronicle) (s : Store) : Chronicle := ⟨s, c.moments⟩

def Grows (c d : Chronicle) : Prop := c.moments <:+ d.moments

def WasFolder (c : Chronicle) (path : String) : Prop := ∃ s ∈ c.moments, s.Has path true

/-- A folder stood at the path at some moment and a file at a later one. -/
def Replaced (c : Chronicle) (path : String) : Prop := ∃ later s earlier,
  c.moments = later ++ s :: earlier ∧ s.Has path false ∧ ∃ t ∈ earlier, t.Has path true

/-- A file stood at the path at some moment and served by the digest of an upload. -/
def Served (c : Chronicle) (path : String) (upload : Option Digest) : Prop :=
  ∃ s ∈ c.moments, ∃ n, s.record? path = some n ∧ n.isFolder = false ∧ n.upload = upload

def Recalls (scope : Scope) (p : Parameters) (c : Chronicle) (n : Node) : Prop :=
  ∃ s ∈ c.moments, s.Regular scope p ∧ s.Holds n

structure Waits (scope : Scope) (p : Parameters) (held : List String) (c d : Chronicle) : Prop where
  grows : c.Grows d
  regular : ∀ s ∈ d.moments, s.Regular scope p
  stays : ∀ path ∈ held, c.now.Stays d.now path

/-- A checksum is noted for a path of what a file there has served. -/
def Vouches (p : Parameters) (c : Chronicle) (path : String) : Store.Change → Prop
  | .checksum text computedFor => c.Served path computedFor ∧
      text = checksumOf (fileContent (nodeIdOf p.seed path) p.contentSeed computedFor)
  | _ => True

/-- The calls that programs make on a shared store. A node is put, unread, into what has been a
folder and is there still; a folder is removed when nothing is in it; both need the lock. -/
def Allows (scope : Scope) (p : Parameters) (held : List String) (c : Chronicle) : Store.Call → Prop
  | .putIfAbsent n => (n.Proper scope p ∧ n.checksum = none) ∧ ∃ folder ∈ held,
      n.parent = some folder ∧ (∃ isFolder, c.now.Has folder isFolder) ∧ c.WasFolder folder
  | .change path edit => edit.Fits scope ∧ c.Vouches p path edit
  | .delete path => path ∈ held ∧ (c.now.Has path true → c.now.Bare path)
  | _ => True

/-- Every record stands in a folder, or in what a file took the place of a folder at. -/
def Sheltered (c : Chronicle) : Prop := ∀ n folder, c.now.Holds n → n.parent = some folder →
  c.now.Has folder true ∨ c.Replaced folder

/-- A checksum on record is that of what a file serves, and its node is this file, or one that
stands now where the file stood. -/
def Vouched (p : Parameters) (c : Chronicle) : Prop := ∀ n text, c.now.Holds n →
  n.checksum = some text → text = checksumOf (fileContent n.id p.contentSeed n.upload) ∧
    c.Served n.path n.upload

end Chronicle

/-- Who holds locks asks for another one only below each of them. -/
def Lock.Ordered (held : List String) (path : String) : Prop :=
  ∀ other ∈ held, Path.parent? path = some other

theorem Lock.ordered_nil {path : String} : Lock.Ordered [] path := fun _ member => by cases member

abbrev Setting.shared (scope : Scope) (p : Parameters) : Setting where
  State := Chronicle
  store := Chronicle.now
  after := Chronicle.next
  meanwhile := Chronicle.Waits scope p
  allows := Chronicle.Allows scope p
  awaits := Lock.Ordered

namespace Store

variable {scope : Scope} {p : Parameters} {s t u : Store} {path : String}

theorem Has.unique {a b : Bool} (left : s.Has path a) (right : s.Has path b) : a = b := by
  obtain ⟨n, found, rfl⟩ := left
  obtain ⟨k, found', rfl⟩ := right
  rw [Holds.unique found found']

theorem Stays.refl (s : Store) (path : String) : s.Stays s path := ⟨fun _ => id, id⟩

theorem Stays.trans (left : s.Stays t path) (right : t.Stays u path) : s.Stays u path :=
  ⟨fun _ has => right.kind _ (left.kind _ has), fun bare => right.bare (left.bare bare)⟩

def Call.Deletes : Call → Prop
  | .delete _ => True
  | _ => False

theorem Effect.has {call : Call} (effect : Effect s scope p call t)
    (other : ¬ call.Deletes) {isFolder : Bool} (has : s.Has path isFolder) :
    t.Has path isFolder := by
  obtain ⟨n, found, kind⟩ := has
  cases effect with
  | none nodes => exact ⟨n, (record?_congr nodes path).trans found, kind⟩
  | @inserted k proper absent =>
    exact ⟨n, record?_insertNode_of_some proper absent found, kind⟩
  | erased holds => exact absurd trivial other
  | @replaced old new change holds proper applied =>
    have keeps := Change.keeps applied
    rw [Has, record?_replaced proper]
    split
    · rename_i here
      have same : n = old := Holds.unique found (by rw [here, keeps.place.path]; exact holds)
      exact ⟨new, rfl, by rw [keeps.isFolder, ← same, kind]⟩
    · exact ⟨n, found, kind⟩

end Store

namespace Chronicle

variable {scope : Scope} {p : Parameters} {b c d : Chronicle} {s t : Store} {held : List String}
  {path : String} {call : Store.Call}

theorem Grows.refl (c : Chronicle) : c.Grows c := List.suffix_refl _

theorem Grows.trans (left : b.Grows c) (right : c.Grows d) : b.Grows d :=
    List.IsSuffix.trans left right

theorem grows_next (c : Chronicle) (s : Store) : c.Grows (c.next s) := List.suffix_cons _ _

theorem Grows.wasFolder (grows : c.Grows d) (was : c.WasFolder path) : d.WasFolder path := by
  obtain ⟨s, moment, has⟩ := was
  exact ⟨s, grows.subset moment, has⟩

theorem Grows.recalls (grows : c.Grows d) {n : Node} (recalls : c.Recalls scope p n) :
    d.Recalls scope p n := by
  obtain ⟨s, moment, rest⟩ := recalls
  exact ⟨s, grows.subset moment, rest⟩

theorem Grows.replaced (grows : c.Grows d) (replaced : c.Replaced path) : d.Replaced path := by
  obtain ⟨later, s, earlier, split, rest⟩ := replaced
  obtain ⟨more, whole⟩ := grows
  exact ⟨more ++ later, s, earlier, by rw [← whole, split, List.append_assoc], rest⟩

theorem Grows.served (grows : c.Grows d) {upload : Option Digest} (served : c.Served path upload) :
    d.Served path upload := by
  obtain ⟨s, moment, rest⟩ := served
  exact ⟨s, grows.subset moment, rest⟩

theorem Recalls.proper {n : Node} (recalls : c.Recalls scope p n) : n.Proper scope p := by
  obtain ⟨s, _, regular, holds⟩ := recalls
  exact (regular.sound.proper holds).1

theorem Recalls.wasFolder {n : Node} (recalls : c.Recalls scope p n)
    (isFolder : n.isFolder = true) : c.WasFolder n.path := by
  obtain ⟨s, moment, _, holds⟩ := recalls
  exact ⟨s, moment, n, holds, isFolder⟩

theorem Recalls.served {n : Node} (recalls : c.Recalls scope p n) (isFile : n.isFolder = false) :
    c.Served n.path n.upload := by
  obtain ⟨s, moment, _, holds⟩ := recalls
  exact ⟨s, moment, n, holds, isFile, rfl⟩

theorem Waits.trans (left : b.Waits scope p held c) (right : c.Waits scope p held d) :
    b.Waits scope p held d where
  grows := left.grows.trans right.grows
  regular := right.regular
  stays := fun path member => (left.stays path member).trans (right.stays path member)

theorem Waits.mono {fewer : List String} (waits : c.Waits scope p held d)
    (subset : ∀ path ∈ fewer, path ∈ held) : c.Waits scope p fewer d :=
  ⟨waits.grows, waits.regular, fun path member => waits.stays path (subset path member)⟩

theorem waits_refl (regular : ∀ s ∈ c.moments, s.Regular scope p) : c.Waits scope p held c :=
  ⟨.refl c, regular, fun path _ => .refl _ path⟩

theorem Waits.recalls (waits : c.Waits scope p held d) {n : Node}
    (found : d.now.record? path = some n) : d.Recalls scope p n ∧ n.path = path := by
  have regular := waits.regular d.now List.mem_cons_self
  exact ⟨⟨d.now, List.mem_cons_self, regular, regular.sound.holds found⟩,
    (regular.sound.proper found).2⟩

theorem Allows.lawful (allows : c.Allows scope p held call) : call.Lawful scope p := by
  cases call with
  | putIfAbsent n => exact allows.1.1
  | change path edit => exact allows.1
  | _ => trivial

section Calling

variable (allows : c.Allows scope p held call) (effect : Store.Effect c.now scope p call t)

include allows effect

/-- A call of one program leaves alone what the locks of the others protect. -/
theorem Allows.stays (apart : path ∉ held) : c.now.Stays t path := by
  cases effect with
  | none nodes =>
    refine ⟨fun isFolder has => ?_, fun bare n holds => ?_⟩
    · obtain ⟨n, found, kind⟩ := has
      exact ⟨n, (Store.record?_congr nodes path).trans found, kind⟩
    · refine bare n ?_
      rw [Store.Holds, ← Store.record?_congr nodes]
      exact holds
  | @inserted n proper absent =>
    obtain ⟨_, folder, member, below, _⟩ := allows
    refine ⟨fun isFolder has => Store.Effect.has (.inserted proper absent) id has,
      fun bare k holds => ?_⟩
    rcases (Store.holds_insertNode proper absent).mp holds with rfl | old
    · rw [below]
      rintro ⟨⟩
      exact apart member
    · exact bare k old
  | @erased n holds =>
    refine ⟨fun isFolder has => ?_, fun bare k stands => ?_⟩
    · obtain ⟨k, found, kind⟩ := has
      refine ⟨k, ?_, kind⟩
      rw [Store.record?_eraseNode, if_neg, found]
      rintro rfl
      exact apart allows.1
    · exact bare k ((Store.holds_eraseNode _ n k).mp stands).1
  | @replaced n k change holds proper applied =>
    have keeps := Store.Change.keeps applied
    have effect : Store.Effect c.now scope p (.change n.path change) (c.now.replaced k) :=
      .replaced holds proper applied
    refine ⟨fun isFolder has => effect.has id has, fun bare l stands => ?_⟩
    rcases Store.holds_replaced proper stands with rfl | earlier
    · rw [keeps.place.parent]
      exact bare n holds
    · exact bare l earlier

theorem Allows.sheltered (sheltered : c.Sheltered) : (c.next t).Sheltered := by
  have replaced : ∀ folder, c.Replaced folder → (c.next t).Replaced folder :=
    fun folder => (c.grows_next t).replaced
  have keeps : ¬ call.Deletes → ∀ folder, c.now.Has folder true ∨ c.Replaced folder →
      (c.next t).now.Has folder true ∨ (c.next t).Replaced folder :=
    fun stays folder => Or.imp (effect.has stays) (replaced folder)
  intro n folder holds below
  cases effect with
  | none nodes =>
    have same := fun path => Store.record?_congr nodes path
    have old : c.now.Holds n := (same n.path).symm.trans holds
    refine (sheltered n folder old below).imp (fun has => ?_) (replaced folder)
    obtain ⟨above, found, kind⟩ := has
    exact ⟨above, (same folder).trans found, kind⟩
  | @inserted k proper absent =>
    rcases (Store.holds_insertNode proper absent).mp holds with rfl | old
    · obtain ⟨_, host, _, at_, ⟨isFolder, has⟩, was⟩ := allows
      rw [below] at at_
      cases at_
      cases isFolder with
      | true => exact keeps id folder (Or.inl has)
      | false =>
        -- A file is there now, so the folder was there at a moment before.
        obtain ⟨s, moment, folderThen⟩ := was
        rcases List.mem_cons.mp moment with rfl | earlier
        · cases has.unique folderThen
        · exact Or.inr ⟨[_], c.now, c.past, rfl, has, s, earlier, folderThen⟩
    · exact keeps id folder (sheltered n folder old below)
  | @erased k stands =>
    obtain ⟨old, _⟩ := (Store.holds_eraseNode c.now k n).mp holds
    rcases sheltered n folder old below with ⟨above, found, kind⟩ | gone
    · by_cases here : folder = k.path
      · rw [here] at found below
        exact absurd below (allows.2 ⟨above, found, kind⟩ n old)
      · refine Or.inl ⟨above, ?_, kind⟩
        change (c.now.eraseNode k.path k).record? folder = some above
        rw [Store.record?_eraseNode, if_neg here, found]
    · exact Or.inr (replaced folder gone)
  | @replaced old new change stands proper applied =>
    have kept := Store.Change.keeps applied
    change (c.now.replaced new).record? n.path = some n at holds
    rw [Store.record?_replaced proper] at holds
    split at holds
    · cases holds
      rw [kept.place.parent] at below
      exact keeps id folder (sheltered old folder stands below)
    · exact keeps id folder (sheltered n folder holds below)

theorem Allows.vouched (regular : c.now.Regular scope p) (vouched : c.Vouched p) :
    (c.next t).Vouched p := by
  have grows := c.grows_next t
  have old : ∀ n text, c.now.Holds n → n.checksum = some text →
      text = checksumOf (fileContent n.id p.contentSeed n.upload) ∧
        (c.next t).Served n.path n.upload := fun n text holds known =>
    (vouched n text holds known).imp_right grows.served
  intro n text holds known
  cases effect with
  | none nodes => exact old n text ((Store.record?_congr nodes n.path).symm.trans holds) known
  | @inserted k proper absent =>
    rcases (Store.holds_insertNode proper absent).mp holds with rfl | stands
    · rw [allows.1.2] at known
      cases known
    · exact old n text stands known
  | @erased k stands => exact old n text ((Store.holds_eraseNode c.now k n).mp holds).1 known
  | @replaced k new change stands proper applied =>
    have kept := Store.Change.keeps applied
    change (c.now.replaced new).record? n.path = some n at holds
    rw [Store.record?_replaced proper] at holds
    split at holds
    · cases holds
      rw [kept.place.id, kept.place.path]
      rcases Store.Change.checksum_cases applied with ⟨same, upload⟩ | none | ⟨_, rfl, new, upload⟩
      · rw [upload]
        exact old k text stands (same.symm.trans known)
      · rw [none] at known
        cases known
      · rw [new] at known
        cases known
        obtain ⟨served, right⟩ := allows.2
        rw [upload, (regular.sound.proper stands).1.shaped.id]
        exact ⟨right, grows.served served⟩
    · exact old n text holds known

end Calling

end Chronicle

end SeedTree
