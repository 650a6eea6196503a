import WorkloadAtlas.Yaml.Lexer
import WorkloadAtlas.Yaml.Node
/-!
Reading texts that hold one YAML document.
-/

namespace WorkloadAtlas.Yaml

def parse (text : String) : Except Error Node := do
  Parse.document (← tokens text.toList)

end WorkloadAtlas.Yaml
