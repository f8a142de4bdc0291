import SeedTree.Engine.Run
import SeedTree.Proofs.Engine.Ends
import SeedTree.Proofs.Store.Lawful

/- Programs that run with nothing in between. What `Ends` says of such a program is what it does on
   every site whose clock reads valid moments, and each of its calls is lawful. -/
namespace SeedTree

abbrev Setting.alone (scope : Scope) (p : Parameters) : Setting where
  State := Store
  store := fun s => s
  after := fun _ s => s
  meanwhile := fun _ s t => s = t
  allows := fun _ _ call => call.Lawful scope p

def Site.Timely (site : Site) : Prop := ∀ tick, (site.clock tick).isValid = true

def Action.puts : Action → List String
  | .store call => call.puts
  | _ => []

def Program.puts {α : Type} : Program α → Site → List String
  | .done _, _ => []
  | .ask action next, site => action.puts ++ (next (site.act action).1).puts (site.act action).2

def Attempt.puts {α : Type} (attempt : Attempt α) (site : Site) : List String :=
  Program.puts attempt.run site

theorem Site.Timely.act {site : Site} (timely : site.Timely) (action : Action) :
    (site.act action).2.Timely := by
  cases action with
  | store call => exact timely
  | clock => exact timely
  | acquire path => exact timely
  | release path => exact timely
  | tell event => exact timely

variable {α β : Type} {scope : Scope} {p : Parameters} {held : List String} {s : Store}

theorem Setting.Asks.act {action : Action} {site : Site}
    {next : action.Reply → List String → Store → Prop}
    (asks : (Setting.alone scope p).Asks action held site.store next) (timely : site.Timely) :
    ∃ kept, next (site.act action).1 kept (site.act action).2.store := by
  cases action with
  | store call => exact ⟨held, (asks site.store rfl).2⟩
  | clock => exact ⟨held, asks _ (timely site.ticks)⟩
  | acquire path => exact ⟨_, asks.2 _ rfl trivial⟩
  | release path => exact ⟨_, asks.2⟩
  | tell event => exact ⟨_, asks⟩

theorem Program.Ends.run {program : Program α} {site : Site}
    {post : α → List String → Store → Prop}
    (ends : program.Ends (Setting.alone scope p) held site.store post) (timely : site.Timely) :
    ∃ kept, post (program.run site).1 kept (program.run site).2.store := by
  induction program generalizing held site with
  | done a => exact ⟨held, ends⟩
  | ask action next ih =>
    obtain ⟨kept, leads⟩ := Setting.Asks.act ends timely
    exact ih _ leads (timely.act action)

/-- What an attempt is shown to do is what it does on a site. -/
theorem Attempt.Ends.runOn {attempt : Attempt α} {site : Site}
    {post : Except Failure α → Store → Prop}
    (ends : attempt.Ends (Setting.alone scope p) held site.store post) (timely : site.Timely) :
    post (attempt.runOn site).1 (attempt.runOn site).2.store := by
  obtain ⟨_, _, known⟩ := Program.Ends.run ends timely
  exact known

theorem Setting.Asks.tracked {action : Action} {site : Site} {paths : List String}
    {next : action.Reply → List String → Store → Prop}
    (asks : (Setting.alone scope p).Asks action held site.store next)
    (regular : site.store.Regular scope p) (tracked : site.store.Tracked paths)
    (distinct : Store.Distinct p.seed (paths ++ action.puts)) :
    (site.act action).2.store.Regular scope p ∧
      (site.act action).2.store.Tracked (paths ++ action.puts) := by
  cases action with
  | store call =>
    have lawful := (asks site.store rfl).1
    exact ⟨regular.perform lawful, tracked.perform regular lawful distinct⟩
  | clock => exact ⟨regular, tracked.weaken⟩
  | acquire path => exact ⟨regular, tracked.weaken⟩
  | release path => exact ⟨regular, tracked.weaken⟩
  | tell event => exact ⟨regular, tracked.weaken⟩

theorem Program.Ends.tracked {program : Program α} {site : Site} {paths : List String}
    {post : α → List String → Store → Prop}
    (ends : program.Ends (Setting.alone scope p) held site.store post) (timely : site.Timely)
    (regular : site.store.Regular scope p) (tracked : site.store.Tracked paths)
    (distinct : Store.Distinct p.seed (paths ++ program.puts site)) :
    (program.run site).2.store.Tracked (paths ++ program.puts site) := by
  induction program generalizing held site paths with
  | done a => exact tracked.weaken
  | ask action next ih =>
    rw [Program.puts, ← List.append_assoc] at distinct ⊢
    obtain ⟨regular', tracked'⟩ := Setting.Asks.tracked ends regular tracked distinct.left
    obtain ⟨kept, leads⟩ := Setting.Asks.act ends timely
    exact ih _ leads (timely.act action) regular' tracked' distinct

theorem Attempt.Ends.tracked {attempt : Attempt α} {site : Site} {paths : List String}
    {post : Except Failure α → Store → Prop}
    (ends : attempt.Ends (Setting.alone scope p) held site.store post) (timely : site.Timely)
    (regular : site.store.Regular scope p) (tracked : site.store.Tracked paths)
    (distinct : Store.Distinct p.seed (paths ++ attempt.puts site)) :
    (attempt.runOn site).2.store.Tracked (paths ++ attempt.puts site) :=
  Program.Ends.tracked ends timely regular tracked distinct

namespace Attempt

theorem alone_withLock {path : String} {attempt : Attempt α}
    {post : Except Failure α → Store → Prop}
    (ends : attempt.Ends (Setting.alone scope p) (path :: held) s post) :
    (withLock path attempt).Ends (Setting.alone scope p) held s post := by
  refine ends_withLock trivial ?_
  rintro _ rfl _
  exact ends.mono fun _ _ known => ⟨trivial, known⟩

section Calls

variable (regular : s.Regular scope p)

include regular

theorem alone_get {path : String} {post : Except Failure (Option Node) → Store → Prop}
    (ends : post (.ok (s.record? path)) s) :
    (get path).Ends (Setting.alone scope p) held s post := by
  refine ends_call ?_
  rintro _ rfl
  refine ⟨trivial, ?_⟩
  simp only [Store.perform, regular.sound.get]
  exact ends

theorem alone_getOr {path : String} {failure : Failure} {post : Except Failure Node → Store → Prop}
    (there : ∀ n, s.record? path = some n → post (.ok n) s)
    (absent : s.record? path = none → post (.error failure) s) :
    (getOr path failure).Ends (Setting.alone scope p) held s post := by
  refine ends_bind (alone_get regular ?_)
  cases found : s.record? path with
  | none => exact ends_throw (absent found)
  | some n => exact ends_pure (there n found)

theorem alone_getById {id : NodeId} {post : Except Failure (Option Node) → Store → Prop}
    (there : ∀ n, s.Holds n → n.id = id → post (.ok (some n)) s)
    (absent : s.ids[id.bytes]? = none → post (.ok none) s) :
    (call (.getById id)).Ends (Setting.alone scope p) held s post := by
  refine ends_call ?_
  rintro _ rfl
  refine ⟨trivial, ?_⟩
  simp only [Store.perform]
  rcases regular.charted.getById id with ⟨read, missing⟩ | ⟨n, read, holds, same⟩
  · rw [read]
    exact absent missing
  · rw [read]
    exact there n holds same

theorem alone_putIfAbsent {n : Node} {post : Except Failure (Node × Bool) → Store → Prop}
    (proper : n.Proper scope p)
    (there : ∀ m, s.record? n.path = some m → post (.ok (m, false)) s)
    (absent : s.record? n.path = none → post (.ok (n, true)) (s.insertNode n)) :
    (call (.putIfAbsent n)).Ends (Setting.alone scope p) held s post := by
  refine ends_call ?_
  rintro _ rfl
  refine ⟨proper, ?_⟩
  simp only [Store.perform]
  cases found : s.record? n.path with
  | none =>
    rw [regular.charted.putIfAbsent_absent found]
    exact absent found
  | some m =>
    rw [regular.charted.putIfAbsent_present found]
    exact there m found

theorem alone_listChildren {folder : String} {post : Except Failure (List Node) → Store → Prop}
    (ends : ∀ found : List Node, (∀ n, n ∈ found ↔ s.Holds n ∧ n.parent = some folder) →
      (found.Pairwise fun a b => Bytes.order (utf8 a.name) (utf8 b.name) = .lt) →
      post (.ok found) s) :
    (call (.listChildren folder)).Ends (Setting.alone scope p) held s post := by
  refine ends_call ?_
  rintro _ rfl
  obtain ⟨found, read, members, sorted⟩ := regular.charted.listChildren folder
  refine ⟨trivial, ?_⟩
  simp only [Store.perform, read]
  exact ends found members sorted

omit regular in
theorem alone_hasChildren {folder : String} {post : Except Failure Bool → Store → Prop}
    (ends : post (.ok (s.hasChildren folder)) s) :
    (call (.hasChildren folder)).Ends (Setting.alone scope p) held s post := by
  refine ends_call ?_
  rintro _ rfl
  exact ⟨trivial, ends⟩

theorem alone_delete {n : Node} {post : Except Failure Bool → Store → Prop}
    (present : s.record? n.path = some n) (ends : post (.ok true) (s.eraseNode n.path n)) :
    (call (.delete n.path)).Ends (Setting.alone scope p) held s post := by
  refine ends_call ?_
  rintro _ rfl
  refine ⟨trivial, ?_⟩
  simp only [Store.perform, regular.charted.delete_present present]
  exact ends

theorem alone_change {n : Node} {change : Store.Change}
    {post : Except Failure (Option Node) → Store → Prop} (fits : change.Fits scope)
    (present : s.record? n.path = some n)
    (same : change.apply n = none → post (.ok (some n)) s)
    (new : ∀ m, change.apply n = some m → m.Proper scope p → post (.ok (some m)) (s.replaced m)) :
    (call (.change n.path change)).Ends (Setting.alone scope p) held s post := by
  refine ends_call ?_
  rintro _ rfl
  refine ⟨fits, ?_⟩
  simp only [Store.perform]
  rcases regular.update_cases n.path fits with ⟨absent, _⟩ | ⟨k, found, kept, step⟩ |
    ⟨k, m, found, changed, proper, step⟩
  · rw [present] at absent
    cases absent
  · cases Store.Holds.unique present found
    rw [step]
    exact same kept
  · cases Store.Holds.unique present found
    rw [step]
    exact new m changed proper

end Calls

end Attempt

end SeedTree
