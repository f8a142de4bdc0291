import SeedTree.Proofs.Engine.Alone
import SeedTree.Proofs.Store.Pruning

/- Two attempts, each on a site of its own, compared by how both end. The two stores are the same
   but for a node that a world does not show. -/
namespace SeedTree

variable {α β γ δ : Type} {scope : Scope} {p : Parameters} {world top : String}
  {sure : Prop} {a b : Site}

theorem Program.run_bind (program : Program α) (f : α → Program β) (a : Site) :
    (program.bind f).run a = (f (program.run a).1).run (program.run a).2 := by
  induction program generalizing a with
  | done x => rfl
  | ask action next ih => exact ih _ _

/-- Sites with the same clock readings to come, and stores of which the second lacks a hidden
node. -/
structure Site.Paired (scope : Scope) (p : Parameters) (world top : String)
    (sure : Prop) (a b : Site) : Prop where
  timely : a.Timely
  clock : b.clock = a.clock
  ticks : b.ticks = a.ticks
  pruned : Store.Pruned scope p world top sure a.store b.store

namespace Attempt

def follow (f : α → Attempt β) : Except Failure α → Attempt β
  | .ok x => f x
  | .error failure => throw failure

theorem runOn_bind (attempt : Attempt α) (f : α → Attempt β) (a : Site) :
    (attempt >>= f).runOn a = (follow f (attempt.runOn a).1).runOn (attempt.runOn a).2 := by
  refine (Program.run_bind attempt.run _ a).trans ?_
  change _ = (follow f (attempt.run.run a).1).runOn (attempt.run.run a).2
  cases (attempt.run.run a).1 <;> rfl

/-- How two attempts end that run side by side. -/
def Pairs (first : Attempt α) (second : Attempt β) (a b : Site)
    (post : Except Failure α → Site → Except Failure β → Site → Prop) : Prop :=
  post (first.runOn a).1 (first.runOn a).2 (second.runOn b).1 (second.runOn b).2

variable {post : Except Failure α → Site → Except Failure β → Site → Prop}

theorem Pairs.mono {first : Attempt α} {second : Attempt β}
    {other : Except Failure α → Site → Except Failure β → Site → Prop}
    (pairs : first.Pairs second a b post)
    (implies : ∀ x here y there, post x here y there → other x here y there) :
    first.Pairs second a b other := implies _ _ _ _ pairs

theorem pairs_bind {first : Attempt α} {second : Attempt β} {f : α → Attempt γ} {g : β → Attempt δ}
    {post : Except Failure γ → Site → Except Failure δ → Site → Prop}
    (pairs : first.Pairs second a b fun x here y there =>
      (follow f x).Pairs (follow g y) here there post) :
    (first >>= f).Pairs (second >>= g) a b post := by
  unfold Pairs at pairs ⊢
  rw [runOn_bind, runOn_bind]
  exact pairs

theorem pairs_pure {x : α} {y : β} (ends : post (.ok x) a (.ok y) b) :
    (pure x : Attempt α).Pairs (pure y : Attempt β) a b post := ends

theorem pairs_throw {failure failure' : Failure}
    (ends : post (.error failure) a (.error failure') b) :
    (throw failure : Attempt α).Pairs (throw failure' : Attempt β) a b post := ends

theorem pairs_first {x : γ} {f : γ → Attempt α} {second : Attempt β}
    (pairs : (f x).Pairs second a b post) :
    (pure x >>= f : Attempt α).Pairs second a b post := pairs

theorem pairs_left {first : Attempt α} {second : Attempt β} (pairs : first.Pairs second a b post) :
    (first >>= fun x => pure x).Pairs second a b post := by
  have same : (first >>= fun x => pure x).runOn a = first.runOn a := by
    rw [runOn_bind]
    cases ended : (first.runOn a).1 with
    | error failure => exact Prod.ext ended.symm rfl
    | ok x => exact Prod.ext ended.symm rfl
  unfold Pairs at pairs ⊢
  rw [same]
  exact pairs

def Same (scope : Scope) (p : Parameters) (world top : String) (sure : Prop) (x : Except Failure α)
    (here : Site) (y : Except Failure α) (there : Site) : Prop :=
  y = x ∧ Site.Paired scope p world top sure here there

section Paired

variable (paired : Site.Paired scope p world top sure a b)
  {post : Except Failure α → Site → Except Failure α → Site → Prop}

include paired

theorem pairs_tell {event : Event}
    {post : Except Failure Unit → Site → Except Failure Unit → Site → Prop}
    (ends : ∀ here there, here.store = a.store →
      Site.Paired scope p world top sure here there → post (.ok ()) here (.ok ()) there) :
    (tell event).Pairs (tell event) a b post :=
  ends _ _ rfl ⟨paired.timely, paired.clock, paired.ticks, paired.pruned⟩

theorem pairs_now {post : Except Failure Moment → Site → Except Failure Moment → Site → Prop}
    (ends : ∀ time here there, time.isValid = true →
      Site.Paired scope p world top sure here there → post (.ok time) here (.ok time) there) :
    now.Pairs now a b post := by
  have same : b.clock b.ticks = a.clock a.ticks := by rw [paired.clock, paired.ticks]
  have next : Site.Paired scope p world top sure { a with ticks := a.ticks + 1 }
      { b with ticks := b.ticks + 1 } :=
    ⟨paired.timely, paired.clock, congrArg (· + 1) paired.ticks, paired.pruned⟩
  have known :=
    ends (a.clock a.ticks) { a with ticks := a.ticks + 1 } { b with ticks := b.ticks + 1 }
      (paired.timely _) next
  unfold Pairs
  change post (.ok (a.clock a.ticks)) _ (.ok (b.clock b.ticks)) _
  rw [same]
  exact known

theorem pairs_withLock {path : String} {attempt : Attempt α}
    (pairs : ∀ here there, here.store = a.store → Site.Paired scope p world top sure here there →
      attempt.Pairs attempt here there (Same scope p world top sure)) :
    (withLock path attempt).Pairs (withLock path attempt) a b (Same scope p world top sure) := by
  have inside :=
    pairs { a with locks := (a.locks.hold path).2 } { b with locks := (b.locks.hold path).2 }
      rfl ⟨paired.timely, paired.clock, paired.ticks, paired.pruned⟩
  have run : ∀ c : Site, (withLock path attempt).runOn c =
      let after := attempt.runOn { c with locks := (c.locks.hold path).2 }
      (after.1, { after.2 with locks := after.2.locks.release path }) := by
    intro c
    exact Program.run_bind attempt.run _ _
  unfold Pairs at inside ⊢
  rw [run, run]
  obtain ⟨same, kept⟩ := inside
  exact ⟨same, kept.timely, kept.clock, kept.ticks, kept.pruned⟩

theorem pairs_tell_first {event : Event} {f : Unit → Attempt α} {second : Attempt β}
    {post : Except Failure α → Site → Except Failure β → Site → Prop}
    (pairs : ∀ here, Site.Paired scope p world top sure here b → (f ()).Pairs second here b post) :
    (tell event >>= f).Pairs second a b post := by
  have next := pairs { a with told := event :: a.told }
    ⟨paired.timely, paired.clock, paired.ticks, paired.pruned⟩
  unfold Pairs at next ⊢
  rw [runOn_bind]
  exact next

theorem pairs_call {c : Store.Call} {x y : Except Failure c.Answer}
    {post : Except Failure c.Answer → Site → Except Failure c.Answer → Site → Prop}
    (first : ((a.store.perform c).1).mapError Failure.storage = x)
    (second : ((b.store.perform c).1).mapError Failure.storage = y)
    (pruned : Store.Pruned scope p world top sure (a.store.perform c).2 (b.store.perform c).2)
    (ends : ∀ here there, here.store = (a.store.perform c).2 →
      Site.Paired scope p world top sure here there → post x here y there) :
    (call c).Pairs (call c) a b post := by
  have run : ∀ s : Site, (call c).runOn s =
      (((s.store.perform c).1).mapError Failure.storage, (s.act (.store c)).2) := by
    intro s
    change Program.run (Program.bind (Program.perform (.store c)) _) s = _
    rw [Program.run_bind]
    change Program.run (match (s.store.perform c).1 with
      | .ok answer => _
      | .error fault => _) (s.act (.store c)).2 = _
    cases (s.store.perform c).1 <;> rfl
  unfold Pairs
  rw [run, run, first, second]
  exact ends _ _ rfl ⟨paired.timely, paired.clock, paired.ticks, pruned⟩

end Paired

end Attempt

end SeedTree
