import SeedTree.Command.Reading

/- What is said about the use of the command line. -/
namespace SeedTree

namespace Usage

def Operand.shown (o : Operand) : String :=
  if o.required then "<" ++ o.name ++ ">" else "[" ++ o.name ++ "]"

def Choice.shown (c : Choice) : String :=
  let name := "--" ++ c.name ++ if c.value.isSome then " <value>" else ""
  match c.letter with
  | some letter => "[-" ++ letter.toString ++ " | " ++ name ++ "]"
  | none => "[" ++ name ++ "]"

def Rules.shown (r : Rules) : String :=
  String.intercalate " " (r.operands.map Operand.shown ++ r.choices.map Choice.shown)

end Usage

/-- One line for the options of all commands and one for each command. -/
def Request.help : String :=
  String.intercalate "\n" (("Usage: " ++ Request.rules.shown ++ " <command>") ::
    CommandName.all.map fun name => "  " ++ name.word ++ " " ++ name.rules.shown)

def UsageFault.message : UsageFault → String
  | .helpWanted => "help is wanted"
  | .nothingGiven => "no command is given"
  | .noCommand => "a command is missing"
  | .unknownCommand => "there is no such command"
  | .unknownArgument => "there is an argument too many, or an option that is not known"
  | .noValue => "a value is missing"
  | .unwantedValue => "a flag has been given a value"
  | .badNumber => "a value is not a number, or is out of range"
  | .repeated => "an option is given twice"
  | .missingOperand => "an argument is missing"

end SeedTree
