import SeedTree.Engine

/- Reasoning about programs action by action. A setting says what may happen around a program and
   which store calls it may make; `Ends` says that a program makes only such calls and how it ends.
   The clock may read any valid moment, and a lock may be long in coming. -/
namespace SeedTree

/-- What surrounds a running program. -/
structure Setting where
  State : Type
  store : State → Store
  /-- The state after a call of the program has left this store. -/
  after : State → Store → State
  /-- What may happen before the next call or lock while the program holds some locks. -/
  meanwhile : List String → State → State → Prop
  allows : List String → State → Store.Call → Prop
  /-- Whether a program that holds some locks may ask for another one. -/
  awaits : List String → String → Prop := fun _ _ => True
  /-- What the lock of a path protects: it is so when the lock is got, and again when it is given
  back. -/
  intact : String → State → Prop := fun _ _ => True

def Setting.Asks (g : Setting) (action : Action) (held : List String) (here : g.State)
    (next : action.Reply → List String → g.State → Prop) : Prop :=
  match action with
  | .store call => ∀ there, g.meanwhile held here there → g.allows held there call ∧
      next ((g.store there).perform call).1 held (g.after there ((g.store there).perform call).2)
  | .clock => ∀ time : Moment, time.isValid = true → next time held here
  | .acquire path => g.awaits held path ∧
      ∀ there, g.meanwhile held here there → g.intact path there → next () (path :: held) there
  | .release path => g.intact path here ∧ next () (held.erase path) here
  | .tell _ => next () held here

theorem Setting.Asks.mono {g : Setting} {action : Action} {held : List String} {here : g.State}
    {first second : action.Reply → List String → g.State → Prop}
    (implies : ∀ reply held here, first reply held here → second reply held here)
    (asks : g.Asks action held here first) : g.Asks action held here second := by
  cases action with
  | store call =>
    intro there happened
    obtain ⟨allowed, leads⟩ := asks there happened
    exact ⟨allowed, implies _ _ _ leads⟩
  | clock => exact fun time valid => implies _ _ _ (asks time valid)
  | acquire path =>
    exact asks.imp_right fun leads there happened intact =>
      implies _ _ _ (leads there happened intact)
  | release path => exact asks.imp_right (implies _ _ _)
  | tell event => exact implies _ _ _ asks

namespace Program

def Ends {α : Type} (g : Setting) : Program α → List String → g.State →
    (α → List String → g.State → Prop) → Prop
  | done a, held, here, post => post a held here
  | ask action next, held, here, post =>
    g.Asks action held here fun reply held there => Ends g (next reply) held there post

variable {α β : Type} {g : Setting}

theorem Ends.mono {p : Program α} {held : List String} {here : g.State}
    {first second : α → List String → g.State → Prop} (ends : p.Ends g held here first)
    (implies : ∀ a held there, first a held there → second a held there) :
    p.Ends g held here second := by
  induction p generalizing held here with
  | done a => exact implies _ _ _ ends
  | ask action next ih => exact Setting.Asks.mono (fun reply _ _ leads => ih reply leads) ends

theorem Ends.bind {p : Program α} {f : α → Program β} {held : List String} {here : g.State}
    {post : β → List String → g.State → Prop}
    (ends : p.Ends g held here fun a held there => (f a).Ends g held there post) :
    (p.bind f).Ends g held here post := by
  induction p generalizing held here with
  | done a => exact ends
  | ask action next ih => exact Setting.Asks.mono (fun reply _ _ leads => ih reply leads) ends

end Program

namespace Attempt

/-- The attempt makes only allowed calls, gives back the locks it takes, and ends as said. -/
def Ends {α : Type} (g : Setting) (attempt : Attempt α) (held : List String) (here : g.State)
    (post : Except Failure α → g.State → Prop) : Prop :=
  Program.Ends g attempt.run held here fun result kept there => kept = held ∧ post result there

variable {α β : Type} {g : Setting} {held : List String} {here : g.State}

theorem Ends.mono {attempt : Attempt α} {first second : Except Failure α → g.State → Prop}
    (ends : attempt.Ends g held here first)
    (implies : ∀ result there, first result there → second result there) :
    attempt.Ends g held here second :=
  Program.Ends.mono ends fun result _ there => And.imp_right (implies result there)

theorem ends_pure {a : α} {post : Except Failure α → g.State → Prop} (ends : post (.ok a) here) :
    (pure a : Attempt α).Ends g held here post := ⟨rfl, ends⟩

theorem ends_throw {failure : Failure} {post : Except Failure α → g.State → Prop}
    (ends : post (.error failure) here) : (throw failure : Attempt α).Ends g held here post :=
  ⟨rfl, ends⟩

theorem ends_ite {c : Prop} [Decidable c] {first second : Attempt α}
    {post : Except Failure α → g.State → Prop} (yes : c → first.Ends g held here post)
    (no : ¬ c → second.Ends g held here post) :
    (if c then first else second).Ends g held here post := by
  split
  · exact yes ‹c›
  · exact no ‹¬ c›

/-- A postcondition met before the rest of an attempt: a failure ends it, and success leads on. -/
def Then (g : Setting) (held : List String) (f : α → Attempt β)
    (post : Except Failure β → g.State → Prop) (result : Except Failure α)
    (there : g.State) : Prop :=
  match result with
  | .ok a => (f a).Ends g held there post
  | .error failure => post (.error failure) there

@[simp] theorem then_ok {f : α → Attempt β} {post : Except Failure β → g.State → Prop} {a : α} :
    Then g held f post (.ok a) here = (f a).Ends g held here post := rfl

theorem ends_bind {attempt : Attempt α} {f : α → Attempt β}
    {post : Except Failure β → g.State → Prop}
    (ends : attempt.Ends g held here (Then g held f post)) :
    (attempt >>= f).Ends g held here post := by
  refine Program.Ends.bind (Program.Ends.mono ends ?_)
  rintro result _ there ⟨rfl, leads⟩
  cases result with
  | ok a => exact leads
  | error failure => exact ⟨rfl, leads⟩

theorem Ends.map {attempt : Attempt α} {f : α → β} {post : Except Failure β → g.State → Prop}
    (ends : attempt.Ends g held here fun result there => post (result.map f) there) :
    (f <$> attempt).Ends g held here post := by
  refine ends_bind (f := fun a => pure (f a)) (ends.mono ?_)
  intro result there known
  cases result with
  | ok a => exact ends_pure known
  | error failure => exact known

theorem ends_discard {attempt : Attempt α} {post : Except Failure Unit → g.State → Prop}
    (ends : attempt.Ends g held here fun result there => post (result.map fun _ => ()) there) :
    (discard attempt).Ends g held here post := Ends.map ends

theorem ends_call {c : Store.Call} {post : Except Failure c.Answer → g.State → Prop}
    (ends : ∀ there, g.meanwhile held here there → g.allows held there c ∧
      post (((g.store there).perform c).1.mapError Failure.storage)
        (g.after there ((g.store there).perform c).2)) :
    (call c).Ends g held here post := by
  intro there happened
  obtain ⟨allowed, leads⟩ := ends there happened
  refine ⟨allowed, ?_⟩
  cases reply : ((g.store there).perform c).1 with
  | ok answer =>
    rw [reply] at leads
    exact ⟨rfl, leads⟩
  | error fault =>
    rw [reply] at leads
    exact ⟨rfl, leads⟩

theorem ends_now {post : Except Failure Moment → g.State → Prop}
    (ends : ∀ time : Moment, time.isValid = true → post (.ok time) here) :
    now.Ends g held here post := fun time valid => ⟨rfl, ends time valid⟩

theorem ends_tell {event : Event} {post : Except Failure Unit → g.State → Prop}
    (ends : post (.ok ()) here) : (tell event).Ends g held here post := ⟨rfl, ends⟩

/-- A section under a lock ends as it would with one more lock held, and leaves intact what the lock
protects. Anything may happen before the lock is got. -/
theorem ends_withLock {path : String} {attempt : Attempt α}
    {post : Except Failure α → g.State → Prop} (awaits : g.awaits held path)
    (ends : ∀ there, g.meanwhile held here there → g.intact path there →
      attempt.Ends g (path :: held) there fun result last =>
        g.intact path last ∧ post result last) :
    (withLock path attempt).Ends g held here post := by
  refine ⟨awaits, fun there happened intact => ?_⟩
  have inside : attempt.run.Ends g (path :: held) there fun result kept there =>
      g.intact path there ∧ kept.erase path = held ∧ post result there := by
    refine Program.Ends.mono (ends there happened intact) ?_
    rintro result _ there ⟨rfl, whole, known⟩
    exact ⟨whole, List.erase_cons_head _ _, known⟩
  exact Program.Ends.bind (f := fun result => (Program.perform (.release path)).bind fun _ =>
    .done result) inside

theorem ends_outcome {attempt : Attempt α}
    {post : Except Failure (Except Failure α) → g.State → Prop}
    (ends : attempt.Ends g held here fun result there => post (.ok result) there) :
    (outcome attempt).Ends g held here post := by
  refine Program.Ends.bind (Program.Ends.mono ends ?_)
  rintro result _ there ⟨rfl, known⟩
  exact ⟨rfl, known⟩

theorem ends_fromPath {checked : Except PathFault α} {post : Except Failure α → g.State → Prop}
    (ends : post (checked.mapError Failure.invalidPath) here) :
    (fromPath checked).Ends g held here post := by
  cases checked with
  | ok a => exact ⟨rfl, ends⟩
  | error fault => exact ⟨rfl, ends⟩

theorem ends_fromWorld {checked : Except WorldFault α} {post : Except Failure α → g.State → Prop}
    (ends : post (checked.mapError fun fault => .invalidConfig (.world fault)) here) :
    (fromWorld checked).Ends g held here post := by
  cases checked with
  | ok a => exact ⟨rfl, ends⟩
  | error fault => exact ⟨rfl, ends⟩

theorem ends_fromConfig {checked : Except ConfigFault α}
    {post : Except Failure α → g.State → Prop}
    (ends : post (checked.mapError Failure.invalidConfig) here) :
    (Engine.fromConfig checked).Ends g held here post := by
  cases checked with
  | ok a => exact ⟨rfl, ends⟩
  | error fault => exact ⟨rfl, ends⟩

end Attempt

end SeedTree
