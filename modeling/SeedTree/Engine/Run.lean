import SeedTree.Engine.Program
import SeedTree.Lock

/- Running programs one after another on a site: a store, a clock, a lock table and the events told
   so far. -/
namespace SeedTree

structure Site where
  store : Store
  /-- The readings of the clock, and how many have been taken. -/
  clock : Nat → Moment
  ticks : Nat
  locks : Lock.Table
  /-- The events told so far, the latest first. -/
  told : List Event

namespace Site

def fresh (store : Store) (clock : Nat → Moment) : Site := ⟨store, clock, 0, .empty, []⟩

def events (s : Site) : List Event := s.told.reverse

/-- The events that the store itself tells during a call: one for every index entry that a listing
passes over. -/
def warnings (s : Store) : Store.Call → List Event
  | .listChildren folder => List.replicate (s.orphans folder) .orphanEntry
  | _ => []

def act (s : Site) : (action : Action) → action.Reply × Site
  | .store call =>
    let told := warnings s.store call ++ s.told
    let (answer, store) := s.store.perform call
    (answer, { s with store, told })
  | .clock => (s.clock s.ticks, { s with ticks := s.ticks + 1 })
  | .acquire path => ((), { s with locks := (s.locks.hold path).2 })
  | .release path => ((), { s with locks := s.locks.release path })
  | .tell event => ((), { s with told := event :: s.told })

end Site

def Program.run {α : Type} : Program α → Site → α × Site
  | .done a, s => (a, s)
  | .ask action next, s =>
    let (reply, s) := s.act action
    (next reply).run s

/-- Runs an attempt; what it did before it failed stays done. -/
def Attempt.runOn {α : Type} (attempt : Attempt α) (s : Site) : Except Failure α × Site :=
  Program.run (ExceptT.run attempt) s

end SeedTree
