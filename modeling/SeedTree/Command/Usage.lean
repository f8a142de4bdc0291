import SeedTree.Number.Decimal
import SeedTree.Text

/- Reading arguments by rules. An option begins with two dashes and is a flag or takes one value,
   after an equals sign or as the next argument; what begins otherwise is an operand. What an
   argument says is accepted only when the next one has been recognized, so a fault of the next one
   may come first. -/
namespace SeedTree

inductive UsageFault where
  | helpWanted
  | nothingGiven
  | noCommand
  | unknownCommand
  | unknownArgument
  | noValue
  | unwantedValue
  | badNumber
  | repeated
  | missingOperand
  deriving DecidableEq, Repr

namespace Usage

inductive ValueKind where
  | text
  | file
  | word32
  | word64
  deriving DecidableEq, Repr

inductive Given where
  | flag
  | text (s : String)
  | number (n : Nat)
  deriving DecidableEq, Repr

/-- An option; without a kind of value it is a flag. -/
structure Choice where
  name : String
  value : Option ValueKind := none
  letter : Option Char := none

structure Operand where
  name : String
  value : ValueKind := .text
  required : Bool := true

/-- The options and operands that a command takes, and the commands that may follow. -/
structure Rules where
  choices : List Choice := []
  operands : List Operand := []
  commands : List String := []

def ValueKind.read (kind : ValueKind) (s : String) : Except UsageFault Given :=
  match kind with
  | .text => return .text s
  | .file => if s = "" then throw .noValue else return .text s
  | .word32 =>
    match Decimal.readInt? s.toList with
    | some n => if 0 ≤ n ∧ n < twoTo 32 then return .number n.toNat else throw .badNumber
    | none => throw .badNumber
  | .word64 =>
    match Decimal.readNat? s.toList with
    | some n => if n < twoTo 64 then return .number n else throw .badNumber
    | none => throw .badNumber

/-- An argument that has been recognized but not accepted. -/
structure Open where
  name : String
  kind : ValueKind
  value : Option String

structure State where
  accepted : List (String × Given) := []
  pending : Option Open := none
  /-- The operands that have not been given. -/
  operands : List Operand
  /-- Two dashes alone have been met: all that follows are operands. -/
  plain : Bool := false

namespace State

def accept (s : State) (name : String) (given : Except UsageFault Given) :
    Except UsageFault State :=
  if s.accepted.any (·.1 = name) then throw .repeated
  else do
    let g ← given
    return { s with accepted := s.accepted ++ [(name, g)] }

def settle (s : State) : Except UsageFault State :=
  match s.pending with
  | none => return s
  | some ⟨_, _, none⟩ => throw .noValue
  | some ⟨name, kind, some value⟩ => { s with pending := none }.accept name (kind.read value)

def awaitsValue (s : State) : Bool :=
  match s.pending with
  | some ⟨_, _, none⟩ => !s.plain
  | _ => false

end State

def helpName : String := "help"

def State.flag (s : State) (name : String) : Except UsageFault State := do
  let s ← s.settle
  if name = helpName then throw .helpWanted else s.accept name (.ok .flag)

def Rules.long (r : Rules) (s : State) (name : String) (attached : Option String) :
    Except UsageFault State :=
  match (Choice.mk helpName none none :: r.choices).find? (·.name = name), attached with
  | none, _ => throw .unknownArgument
  | some ⟨_, none, _⟩, some _ => throw .unwantedValue
  | some ⟨_, none, _⟩, none => s.flag name
  | some ⟨_, some kind, _⟩, some value => do (← s.settle).accept name (kind.read value)
  | some ⟨_, some kind, _⟩, none => do
    let s ← s.settle
    return { s with pending := some ⟨name, kind, none⟩ }

def Rules.letters (r : Rules) (s : State) : List Char → Except UsageFault State
  | [] => return s
  | c :: more =>
    match (Choice.mk helpName none (some 'h') :: r.choices).find? (·.letter = some c) with
    | some choice => do r.letters (← s.flag choice.name) more
    | none => throw .unknownArgument

def Rules.operand (r : Rules) (s : State) (value : String) : Except UsageFault State :=
  match s.operands with
  | operand :: more => do
    let s ← s.settle
    return { s with pending := some ⟨operand.name, operand.value, some value⟩, operands := more }
  | [] =>
    if r.commands.isEmpty || (s.plain && r.commands.contains value) then throw .unknownArgument
    else throw .unknownCommand

def splitLong (cs : List Char) : String × Option String :=
  match Text.splitFirst? '=' cs with
  | some (name, value) => (String.ofList name, some (String.ofList value))
  | none => (String.ofList cs, none)

def Rules.step (r : Rules) (s : State) (argument : String) : Except UsageFault State :=
  if s.plain then r.operand s argument
  else match argument.toList with
    | '-' :: '-' :: [] => return { s with plain := true }
    | '-' :: '-' :: cs =>
      let (name, attached) := splitLong cs
      r.long s name attached
    | '-' :: c :: cs => r.letters s (c :: cs)
    | _ =>
      match s.pending with
      | some ⟨name, kind, none⟩ => return { s with pending := some ⟨name, kind, some argument⟩ }
      | _ => r.operand s argument

/-- Reads arguments up to a command, if one is named; answers it and the arguments after it. -/
def Rules.read (r : Rules) (s : State) :
    List String → Except UsageFault (State × Option (String × List String))
  | [] => return (s, none)
  | argument :: more =>
    if !s.plain && !s.awaitsValue && r.commands.contains argument then
      return (s, some (argument, more))
    else do r.read (← r.step s argument) more

structure Arguments where
  entries : List (String × Given)

namespace Arguments

def find? (a : Arguments) (name : String) : Option Given :=
  (a.entries.find? (·.1 = name)).map Prod.snd

def has (a : Arguments) (name : String) : Bool := (a.find? name).isSome

def text? (a : Arguments) (name : String) : Option String :=
  match a.find? name with
  | some (.text s) => some s
  | _ => none

def number? (a : Arguments) (name : String) : Option Nat :=
  match a.find? name with
  | some (.number n) => some n
  | _ => none

end Arguments

def Rules.readAll (r : Rules) (arguments : List String) : Except UsageFault Arguments := do
  let (s, _) ← r.read { operands := r.operands } arguments
  let s ← s.settle
  if s.operands.any (·.required) then throw .missingOperand else return ⟨s.accepted⟩

end Usage

end SeedTree
