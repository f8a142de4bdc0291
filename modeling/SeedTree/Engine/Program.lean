import SeedTree.Failure
import SeedTree.Log.Event
import SeedTree.Store

/- Programs over a shared store. A program is the sequence of its actions: each asks for one atomic
   call on the store, a clock reading, a lock on a path or its release, or tells an event, and goes
   on from the reply. -/
namespace SeedTree

inductive Action where
  | store (call : Store.Call)
  | clock
  | acquire (path : String)
  | release (path : String)
  | tell (event : Event)

abbrev Action.Reply : Action → Type
  | .store call => Except StoreFault call.Answer
  | .clock => Moment
  | .acquire _ => Unit
  | .release _ => Unit
  | .tell _ => Unit

inductive Program (α : Type) : Type where
  | done (a : α)
  | ask (action : Action) (next : action.Reply → Program α)

namespace Program

def bind {α β : Type} : Program α → (α → Program β) → Program β
  | done a, f => f a
  | ask action next, f => ask action fun reply => (next reply).bind f

instance : Monad Program where
  pure := done
  bind := bind

theorem bind_done {α : Type} (p : Program α) : p.bind done = p := by
  induction p with
  | done a => rfl
  | ask action next ih => simp only [bind]; congr 1; funext reply; exact ih reply

theorem bind_assoc {α β γ : Type} (p : Program α) (f : α → Program β) (g : β → Program γ) :
    (p.bind f).bind g = p.bind fun a => (f a).bind g := by
  induction p with
  | done a => rfl
  | ask action next ih => simp only [bind]; congr 1; funext reply; exact ih reply

instance : LawfulMonad Program := LawfulMonad.mk' Program bind_done (fun _ _ => rfl) bind_assoc

def perform (action : Action) : Program action.Reply := ask action done

end Program

abbrev Attempt (α : Type) := ExceptT Failure Program α

namespace Attempt

def ofProgram {α : Type} (p : Program α) : Attempt α := ExceptT.lift p

/-- How an attempt ends, without failing itself. -/
def outcome {α : Type} (attempt : Attempt α) : Attempt (Except Failure α) := ofProgram attempt.run

def call (c : Store.Call) : Attempt c.Answer :=
  ExceptT.mk do
    match ← Program.perform (.store c) with
    | .ok answer => return .ok answer
    | .error fault => return .error (.storage fault)

def now : Attempt Moment := ofProgram (Program.perform .clock)

def tell (event : Event) : Attempt Unit := ofProgram (Program.perform (.tell event))

/-- Runs an attempt while the lock of a path is held; the lock is released also when the attempt
fails. -/
def withLock {α : Type} (path : String) (attempt : Attempt α) : Attempt α :=
  ExceptT.mk do
    Program.perform (.acquire path)
    let result ← attempt.run
    Program.perform (.release path)
    return result

def fromPath {α : Type} : Except PathFault α → Attempt α
  | .ok a => return a
  | .error fault => throw (.invalidPath fault)

def fromWorld {α : Type} : Except WorldFault α → Attempt α
  | .ok a => return a
  | .error fault => throw (.invalidConfig (.world fault))

def get (path : String) : Attempt (Option Node) := call (.get path)

def getOr (path : String) (failure : Failure) : Attempt Node := do
  match ← get path with
  | some n => return n
  | none => throw failure

end Attempt

end SeedTree
