/-! # YAML nodes

What a YAML document is made of.  A scalar remembers whether it was written without quotes, since
only then it can stand for anything but a text.
-/

namespace DocWiring

inductive Yaml where
  | scalar (tag : Option String) (plain : Bool) (text : String)
  | list (tag : Option String) (items : List Yaml)
  | map (tag : Option String) (entries : List (Yaml × Yaml))

namespace Yaml

/-- What stands where nothing is written. -/
def absent : Yaml := .scalar none true ""

def tag? : Yaml → Option String
  | .scalar tag _ _ => tag
  | .list tag _ => tag
  | .map tag _ => tag

def withTag (tag : String) : Yaml → Yaml
  | .scalar _ plain text => .scalar (some tag) plain text
  | .list _ items => .list (some tag) items
  | .map _ entries => .map (some tag) entries

end Yaml

end DocWiring
