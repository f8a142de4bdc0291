import SeedTree.Command
import SeedTree.Command.Usage

/- The command line: options for all commands, the name of one and its own arguments. -/
namespace SeedTree

open Usage

inductive CommandName where
  | ls
  | stat
  | cat
  | sum
  | tree
  | mkdir
  | rm
  | put
  | worlds
  deriving DecidableEq, Repr

namespace CommandName

def all : List CommandName := [ls, stat, cat, sum, tree, mkdir, rm, put, worlds]

def word : CommandName → String
  | ls => "ls"
  | stat => "stat"
  | cat => "cat"
  | sum => "sum"
  | tree => "tree"
  | mkdir => "mkdir"
  | rm => "rm"
  | put => "put"
  | worlds => "worlds"

def ofWord? (word : String) : Option CommandName := all.find? (·.word = word)

def path : Operand := { name := "path" }

def pathOrRoot : Operand := { name := "path", required := false }

def format : Choice := { name := "format", value := some .text }

def rules : CommandName → Rules
  | ls => { choices := [format], operands := [pathOrRoot] }
  | stat => { choices := [format], operands := [path] }
  | cat =>
    { choices :=
        [{ name := "id" }, { name := "offset", value := some .word64 },
          { name := "len", value := some .word64 }, { name := "out", value := some .file }],
      operands := [path] }
  | sum => { operands := [path] }
  | tree => { choices := [{ name := "depth", value := some .word32 }], operands := [pathOrRoot] }
  | mkdir => { choices := [{ name := "parents", letter := some 'p' }], operands := [path] }
  | rm => { operands := [path] }
  | put => { operands := [{ name := "local", value := .file }, { name := "dest" }] }
  | worlds => { choices := [format] }

def command (name : CommandName) (a : Arguments) : Command :=
  let path := (a.text? "path").getD Path.root
  let format := (a.text? "format").getD "text"
  match name with
  | ls => .list path format
  | stat => .stat path format
  | cat =>
    .show path (a.has "id") (UInt64.ofNat ((a.number? "offset").getD 0))
      ((a.number? "len").map UInt64.ofNat) (a.text? "out")
  | sum => .checksum path
  | tree => .tree path (UInt32.ofNat ((a.number? "depth").getD 2))
  | mkdir => .makeFolder path (a.has "parents")
  | rm => .remove path
  | put => .upload ((a.text? "local").getD "") ((a.text? "dest").getD "")
  | worlds => .worlds format

end CommandName

namespace Request

def rules : Rules where
  choices :=
    [{ name := "config", value := some .file }, { name := "world", value := some .text },
      { name := "verbose" }, { name := "log-level", value := some .text },
      { name := "log-format", value := some .text }, { name := "log-output", value := some .text },
      { name := "log-file", value := some .file }]
  commands := CommandName.all.map CommandName.word ++ [helpName]

def helpOn : List String → UsageFault
  | [] => .helpWanted
  | [word] => if rules.commands.contains word then .helpWanted else .unknownCommand
  | _ => .unknownCommand

def make (a : Arguments) (command : Command) : Request where
  command := command
  config := a.text? "config"
  world := (a.text? "world").getD World.primaryName
  verbose := a.has "verbose"
  logging :=
    { level := (a.text? "log-level").or (if a.has "verbose" then some "debug" else none),
      format := a.text? "log-format", output := a.text? "log-output", file := a.text? "log-file" }

def ofArguments (arguments : List String) : Except UsageFault Request := do
  let (s, found) ← rules.read { operands := [] } arguments
  match found with
  | none =>
    let s ← s.settle
    throw (if s.accepted.isEmpty then .nothingGiven else .noCommand)
  | some (word, more) =>
    match CommandName.ofWord? word with
    | none => throw (helpOn more)
    | some name =>
      let own ← name.rules.readAll more
      let s ← s.settle
      return make ⟨s.accepted⟩ (name.command own)

end Request

end SeedTree
