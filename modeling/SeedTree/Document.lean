import SeedTree.Document.Ini
import SeedTree.Document.Json
import SeedTree.Document.Json5
import SeedTree.Document.Ron
import SeedTree.Document.Toml
import SeedTree.Document.Yaml

/- The forms a configuration document may have. -/
namespace SeedTree

inductive DocumentForm where
  | json
  | toml
  | yaml
  | json5
  | ini
  | ron
  deriving DecidableEq, Repr

namespace DocumentForm

def read? (form : DocumentForm) (s : String) : Option Value :=
  match form with
  | json => Json.read? s
  | toml => Toml.read? s
  | yaml => Yaml.read? s
  | json5 => Json5.read? s
  | ini => Ini.read? s
  | ron => Ron.read? s

/-- Whether the names of worlds keep the case they are written in. -/
def keepsNames : DocumentForm → Bool
  | json => true
  | toml => true
  | _ => false

def endings : List (String × DocumentForm) :=
  [("json", json), ("toml", toml), ("yaml", yaml), ("yml", yaml), ("json5", json5), ("ini", ini),
   ("ron", ron)]

def ofEnding? (ending : String) : Option DocumentForm :=
  (endings.find? (·.1 = ending)).map Prod.snd

end DocumentForm

end SeedTree
