import SeedTree.Document.Json.Pretty
import SeedTree.Log.Event
import SeedTree.Log.Logger
import SeedTree.Moment

/- Events as lines of a log. -/
namespace SeedTree

namespace Level

def colour : Level → Nat
  | trace => 35
  | debug => 34
  | info => 32
  | warn => 33
  | error => 31

def column (l : Level) : String :=
  String.ofList (List.replicate (5 - l.text.length) ' ') ++ l.text

end Level

namespace LogStyle

def shownAs (code : Nat) (s : String) : String :=
  "\x1b[" ++ Decimal.natText code ++ "m" ++ s ++ "\x1b[0m"

def faint (s : String) : String := shownAs 2 s

def line (style : LogStyle) (time : Moment) (e : Event) : String :=
  match style with
  | .json =>
    let pair (key value : String) : String :=
      String.ofList (Json.textChars key) ++ ":" ++ String.ofList (Json.textChars value)
    "\x7b" ++ pair "timestamp" time.toText ++ "," ++ pair "level" e.level.text
      ++ ",\"fields\":\x7b" ++ pair "message" e.message ++ "\x7d," ++
        pair "target" e.target ++ "\x7d"
  | .color =>
    faint time.toText ++ " " ++ shownAs e.level.colour e.level.column ++ " " ++ faint e.target
      ++ faint ":" ++ " " ++ e.message
  | .text => time.toText ++ " " ++ e.level.column ++ " " ++ e.target ++ ": " ++ e.message

end LogStyle

namespace Logger

def lines (l : Logger) (time : Moment) (events : List Event) : List String :=
  (events.filter l.shows).map (l.style.line time)

end Logger

end SeedTree
