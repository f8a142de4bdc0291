import SeedTree.Proofs.Serving

/- The life of a record, from when it is put into the store until it is removed: what never changes
   in it, and which operations change the rest. -/
namespace SeedTree

/-- What becomes of a record that stays in the store, if its content was replaced, its checksum was
computed and it was shown in worlds as given. -/
structure Node.Becomes (replaced summed : Prop) (shown : String → Prop) (n k : Node) : Prop where
  keeps : Store.Change.Keeps n k
  content : k.updated ≠ n.updated ∨ k.upload ≠ n.upload → replaced
  uploaded : n.upload ≠ none → k.upload ≠ none
  computed : n.checksum = none → k.checksum ≠ none → summed
  cleared : n.checksum ≠ none → k.checksum = none → replaced
  decided : ∀ world : String, n.existence[world]? ≠ none → k.existence[world]? ≠ none
  visible : ∀ world : String, n.existence[world]? = some true → k.existence[world]? = some true
  revealed : ∀ world : String, n.existence[world]? = some false →
    k.existence[world]? = some true → shown world

namespace Node.Becomes

variable {replaced summed replaced' summed' : Prop} {shown shown' : String → Prop} {n k l : Node}

theorem refl (n : Node) : n.Becomes replaced summed shown n where
  keeps := .refl n
  content := by rintro (changed | changed) <;> exact absurd rfl changed
  uploaded := fun some => some
  computed := fun none some => absurd none some
  cleared := fun some none => absurd none some
  decided := fun _ known => known
  visible := fun _ seen => seen
  revealed := fun world hidden seen => by
    rw [hidden] at seen
    cases seen

theorem mono (becomes : n.Becomes replaced summed shown k) (replaces : replaced → replaced')
    (sums : summed → summed') (reveals : ∀ world, shown world → shown' world) :
    n.Becomes replaced' summed' shown' k where
  keeps := becomes.keeps
  content := fun changed => replaces (becomes.content changed)
  uploaded := becomes.uploaded
  computed := fun none some => sums (becomes.computed none some)
  cleared := fun some none => replaces (becomes.cleared some none)
  decided := becomes.decided
  visible := becomes.visible
  revealed := fun world hidden seen => reveals world (becomes.revealed world hidden seen)

theorem trans (early : n.Becomes replaced summed shown k)
    (late : k.Becomes replaced summed shown l) : n.Becomes replaced summed shown l where
  keeps := early.keeps.trans late.keeps
  content := by
    intro changed
    by_cases same : k.updated = n.updated ∧ k.upload = n.upload
    · rw [← same.1, ← same.2] at changed
      exact late.content changed
    · exact early.content (not_and_or.mp same)
  uploaded := fun some => late.uploaded (early.uploaded some)
  computed := by
    intro none some
    by_cases before : k.checksum = Option.none
    · exact late.computed before some
    · exact early.computed none before
  cleared := by
    intro some none
    by_cases before : k.checksum = Option.none
    · exact early.cleared some before
    · exact late.cleared before none
  decided := fun world known => late.decided world (early.decided world known)
  visible := fun world seen => late.visible world (early.visible world seen)
  revealed := by
    intro world hidden seen
    have known := early.decided world (by rw [hidden]; exact Option.some_ne_none _)
    cases between : k.existence[world]? with
    | none => exact absurd between known
    | some decision =>
      cases decision with
      | false => exact late.revealed world between seen
      | true => exact early.revealed world hidden between

end Node.Becomes

variable {m : Materializer} {scope : Scope} {s t : Store} {n k l : Node}
  {r : Operation} {path : String} {succeeded : Bool}

section Causes

variable {replaced summed : Prop} {shown : String → Prop}

theorem Node.Becomes.decides {world : String} {present : Bool}
    (stays : n.existence[world]? = some true → present = true)
    (reveals : n.existence[world]? = some false → present = true → shown world) :
    n.Becomes replaced summed shown { n with existence := n.existence.insert world present } := by
  have still : n.Becomes replaced summed shown n := .refl n
  have decisions := fun other => getElem?_insert_ite n.existence world other present
  refine { still with
    keeps := ⟨⟨rfl, rfl, rfl, rfl⟩, rfl, rfl, rfl, fun done => done⟩
    decided := fun other known => ?_
    visible := fun other seen => ?_
    revealed := fun other hidden seen => ?_ }
  · rw [decisions]
    split
    · exact Option.some_ne_none _
    · exact known
  · rw [decisions]
    split
    · rename_i same
      rw [stays (same ▸ seen)]
    · exact seen
  · rw [decisions] at seen
    split at seen
    · rename_i same
      exact same ▸ reveals (same ▸ hidden) (Option.some.inj seen)
    · rw [hidden] at seen
      cases seen

theorem Store.Change.becomes {change : Store.Change} (suits : change.Suits m scope n)
    (new : change.apply n = some k)
    (replaces : ∀ upload time, change = .content upload time → replaced)
    (sums : ∀ text computedFor, change = .checksum text computedFor → summed)
    (reveals : ∀ world present, change = .redecision world present → shown world) :
    n.Becomes replaced summed shown k := by
  have keeps := keeps new
  have still : n.Becomes replaced summed shown n := .refl n
  cases change with
  | markGenerated => exact suits.elim
  | content upload time =>
    cases new
    exact { still with
      keeps := keeps
      content := fun _ => replaces upload time rfl
      uploaded := fun _ => Option.some_ne_none _
      computed := fun _ some => absurd rfl some
      cleared := fun _ _ => replaces upload time rfl }
  | checksum text computedFor =>
    simp only [apply] at new
    split at new
    · cases new
    · cases new
      exact { still with
        keeps := keeps
        computed := fun _ _ => sums text computedFor rfl
        cleared := fun _ none => absurd none (Option.some_ne_none _) }
  | decision world present =>
    simp only [apply] at new
    split at new
    · cases new
    · rename_i undecided
      cases new
      have missing : n.existence[world]? = none := by
        rw [Std.ExtTreeMap.contains_iff_mem, mem_iff_getElem?_some] at undecided
        exact Option.eq_none_iff_forall_ne_some.mpr fun decision found =>
          undecided ⟨decision, found⟩
      refine .decides (fun seen => ?_) fun hidden => ?_
      · rw [missing] at seen
        cases seen
      · rw [missing] at hidden
        cases hidden
  | redecision world present =>
    simp only [apply] at new
    split at new
    · cases new
    · cases new
      exact .decides (fun _ => suits.2.1) fun _ _ => reveals world present rfl

variable (within : m.worlds.Within scope) (wf : s.WellFormed scope m.parameters)

include within wf

theorem Move.becomes {deed : Deed} (move : Move m scope deed s t) (holds : s.Holds n)
    (stays : deed ≠ .removed n.path)
    (replaces : ∀ upload time, deed = .changed n.path (.content upload time) → replaced)
    (sums : ∀ text computedFor, deed = .changed n.path (.checksum text computedFor) → summed)
    (reveals : ∀ world present, deed = .changed n.path (.redecision world present) → shown world) :
    ∃ k, t.record? n.path = some k ∧ n.Becomes replaced summed shown k := by
  have still : n.Becomes replaced summed shown n := .refl n
  cases move with
  | @expanded _ folder _ _ opens =>
    by_cases here : n.path = folder.path
    · have same : n = folder := Store.Holds.unique holds (by rw [here]; exact opens.holds)
      subst same
      refine ⟨n.expanded, by rw [opens.record? wf within, if_pos rfl], ?_⟩
      exact { still with keeps := ⟨⟨rfl, rfl, rfl, rfl⟩, rfl, rfl, rfl, fun _ => rfl⟩ }
    · exact ⟨n, opens.stays wf within holds here, still⟩
  | @changed _ old new change present suits applied =>
    have proper := (suits.fits within).proper applied (wf.regular.sound.proper present).1
    rw [Store.record?_replaced proper, (Store.Change.keeps applied).place.path]
    by_cases here : n.path = old.path
    · have same : n = old := Store.Holds.unique holds (by rw [here]; exact present)
      subst same
      refine ⟨new, if_pos rfl, Store.Change.becomes suits applied ?_ ?_ ?_⟩
      · exact fun upload time same => replaces upload time (by rw [same])
      · exact fun text computedFor same => sums text computedFor (by rw [same])
      · exact fun world present same => reveals world present (by rw [same])
    · exact ⟨n, by rw [if_neg here, holds], still⟩
  | @made _ folder new there isFolder ready absent handmade =>
    refine ⟨n, ?_, still⟩
    rw [Store.record?_insertNode handmade.proper, if_neg, holds]
    intro same
    rw [← same, holds] at absent
    cases absent
  | @removed _ gone there below empty =>
    refine ⟨n, ?_, still⟩
    rw [Store.record?_eraseNode, if_neg, holds]
    exact fun same => stays (by rw [same])

end Causes

section Operations

variable (within : m.worlds.Within scope) (wf : s.WellFormed scope m.parameters)

include within wf

theorem Moves.becomes (moves : Moves m scope (r.Does m.parameters.seed succeeded) s t)
    (holds : s.Holds n) : ∃ k, t.record? n.path = some k ∧
      n.Becomes (r.Replaces succeeded n.path) (r.Hashes m.parameters.seed n.path)
        (fun world => r.Shows succeeded world n.path) k := by
  induction moves generalizing n with
  | none s => exact ⟨n, holds, .refl n⟩
  | @more deed s u t permitted move rest ih =>
    have moved : ∃ k, u.record? n.path = some k ∧
        n.Becomes (r.Replaces succeeded n.path) (r.Hashes m.parameters.seed n.path)
          (fun world => r.Shows succeeded world n.path) k := by
      refine move.becomes within wf holds ?_ ?_ ?_ ?_
      · rintro rfl
        exact permitted
      · rintro upload time rfl
        exact permitted
      · rintro text computedFor rfl
        exact permitted
      · rintro world present rfl
        exact permitted
    obtain ⟨k, found, first⟩ := moved
    have later := move.wellFormed within wf
    obtain ⟨l, found', next⟩ := ih later (later.holds found).1
    rw [first.keeps.place.path] at found' next
    exact ⟨l, found', first.trans next⟩

theorem Operation.Leaves.becomes (leaves : r.Leaves m scope succeeded s t) (holds : s.Holds n)
    (found : t.record? n.path = some k) :
    n.Becomes (r.Replaces succeeded n.path) (r.Hashes m.parameters.seed n.path)
      (fun world => r.Shows succeeded world n.path) k := by
  cases leaves with
  | kept moves =>
    obtain ⟨l, there, becomes⟩ := moves.becomes within wf holds
    rw [there] at found
    cases found
    exact becomes
  | @removed u gone moves removes stands below empty =>
    obtain ⟨l, there, becomes⟩ := moves.becomes within wf holds
    rw [Store.record?_eraseNode] at found
    split at found
    · cases found
    · rw [there] at found
      cases found
      exact becomes

end Operations

namespace Session

inductive Episode where
  | operated (operation : Operation) (succeeded : Bool)
  | reopened

namespace Episode

def Replaces : Episode → String → Prop
  | operated operation succeeded, path => operation.Replaces succeeded path
  | reopened, _ => False

def Hashes (seed : UInt64) : Episode → String → Prop
  | operated operation _, path => operation.Hashes seed path
  | reopened, _ => False

def Shows : Episode → String → String → Prop
  | operated operation succeeded, world, path => operation.Shows succeeded world path
  | reopened, _, _ => False

end Episode

inductive Passes (scope : Scope) : Episode → Session → Session → Prop where
  | operates {a : Session} {site : Site} (operation : Operation) (fits : operation.Fits)
      (here : site.store = a.store) (timely : site.Timely) :
      Passes scope (.operated operation ((operation.run a.engine).runOn site).1.isOk) a
        (a.after operation site)
  | reopens {a b : Session} (turn : Turn scope none a b) : Passes scope .reopened a b

/-- A record lives at a path as long as it is there after every turn. No turn removes a record and
puts another in its place. -/
inductive Lives (scope : Scope) (path : String) :
    List Episode → Session → Node → Session → Node → Prop where
  | here {a : Session} {n : Node} (found : a.store.record? path = some n) :
    Lives scope path [] a n a n
  | on {past : List Episode} {episode : Episode} {a b c : Session} {n k l : Node}
      (before : Lives scope path past a n b k) (passes : Passes scope episode b c)
      (found : c.store.record? path = some l) : Lives scope path (episode :: past) a n c l

variable {a b c : Session} {episode : Episode} {past : List Episode}

theorem Passes.turn (passes : Passes scope episode a b) : ∃ kind, Turn scope kind a b := by
  cases passes with
  | operates operation fits here timely => exact ⟨_, .operates operation fits here timely⟩
  | reopens turn => exact ⟨_, turn⟩

theorem Passes.becomes (passes : Passes scope episode a b) (valid : a.Valid scope)
    (holds : a.store.Holds n) (found : b.store.record? n.path = some k) :
    n.Becomes (episode.Replaces n.path)
      (episode.Hashes a.engine.materializer.parameters.seed n.path)
      (fun world => episode.Shows world n.path) k := by
  cases passes with
  | operates operation fits here timely =>
    exact (valid.leaves fits here timely).becomes valid.ready.within valid.wellFormed holds found
  | reopens turn =>
    cases turn with
    | reopens shape within here timely started =>
      have same := (valid.reopened shape here timely started).1
      rw [same.record?, holds] at found
      cases found
      exact .refl n

theorem Lives.valid (lives : Lives scope path past a n b k) (valid : a.Valid scope) :
    b.Valid scope ∧ b.engine.materializer.parameters = a.engine.materializer.parameters := by
  induction lives with
  | here => exact ⟨valid, rfl⟩
  | on before passes found ih =>
    obtain ⟨middle, same⟩ := ih valid
    obtain ⟨kind, turn⟩ := passes.turn
    exact ⟨turn.valid middle, (turn.parameters middle).trans same⟩

theorem Lives.found (lives : Lives scope path past a n b k) : b.store.record? path = some k := by
  cases lives <;> assumption

/-- Through any operations and reopenings a record keeps its place and its kind, and a folder whose
children were generated stays so. The content of a file is replaced only by uploads to its path that
succeed, and its checksum comes only from reading it and goes only with its content. A decision
stays for ever, but for one that hid the node from a world in which it was made or uploaded
again. -/
theorem record_becomes (reached : a.Reached scope) (lives : Lives scope path past a n b k) :
    n.Becomes (∃ episode ∈ past, episode.Replaces path)
      (∃ episode ∈ past, episode.Hashes a.engine.materializer.parameters.seed path)
      (fun world => ∃ episode ∈ past, episode.Shows world path) k := by
  have valid := reached.valid
  induction lives with
  | here => exact .refl _
  | @on past episode a b c n k l before passes found ih =>
    obtain ⟨middle, parameters⟩ := before.valid valid
    obtain ⟨holds, place⟩ := middle.wellFormed.holds before.found
    subst place
    have last := passes.becomes middle holds found
    rw [parameters] at last
    have earlier : ∀ {p : Episode → Prop}, (∃ episode ∈ past, p episode) →
        ∃ turn ∈ episode :: past, p turn := by
      rintro p ⟨turn, member, known⟩
      exact ⟨turn, List.mem_cons_of_mem _ member, known⟩
    have recent : episode ∈ episode :: past := List.mem_cons_self
    exact ((ih reached valid).mono earlier earlier fun _ => earlier).trans
      (last.mono (⟨episode, recent, ·⟩) (⟨episode, recent, ·⟩) fun _ known =>
        ⟨episode, recent, known⟩)

def replacedFile : Session :=
  newFile.after (.uploadFile "/" .primary "a" [0]) (.still newFile.store)

theorem replacedFile_becomes : ∃ n k, newFile.Reached .bare ∧
    Lives .bare "/a" [.operated (.uploadFile "/" .primary "a" [0]) true] newFile n replacedFile k ∧
    k.upload ≠ n.upload ∧ n.Becomes
      (∃ episode ∈ [Episode.operated (.uploadFile "/" .primary "a" [0]) true],
        episode.Replaces "/a")
      (∃ episode ∈ [Episode.operated (.uploadFile "/" .primary "a" [0]) true],
        episode.Hashes newFile.engine.materializer.parameters.seed "/a")
      (fun world => ∃ episode ∈ [Episode.operated (.uploadFile "/" .primary "a" [0]) true],
        episode.Shows world "/a") k := by
  have short : IsShort (Path.join "/" "a") := by decide +kernel
  have fits : (Operation.uploadFile "/" .primary "a" [0]).Fits :=
    Operation.fits_uploadFile (by rfl) short
  have uploads :
    ((newFile.store.record? "/a").bind fun n => (replacedFile.store.record? "/a").map fun k =>
      (decide (k.upload ≠ n.upload), ((newFile.engine.uploadFile "/" .primary "a" [0]).runOn
        (.still newFile.store)).1.isOk)) = some (true, true) := by
    decide +kernel
  obtain ⟨n, before, later⟩ := Option.bind_eq_some_iff.mp uploads
  obtain ⟨k, after, known⟩ := Option.map_eq_some_iff.mp later
  obtain ⟨apart, succeeded⟩ := Prod.mk.inj known
  have reached := newFile_upload.reached
  have passes : Passes .bare
      (.operated (.uploadFile "/" .primary "a" [0]) true) newFile replacedFile := by
    rw [← succeeded]
    exact .operates _ fits (Site.still_store _) (Site.still_timely _)
  have lives := Lives.on (.here before) passes after
  exact ⟨n, k, reached, lives, of_decide_eq_true apart, record_becomes reached lives⟩

end Session

end SeedTree
