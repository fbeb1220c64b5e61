import DocWiring.Config.Fields
import DocWiring.Yaml.Reader

/-! # Configurations in YAML

Any scalar is a text; a truth value, a number and nothing have to be written without quotes.  A list
or a map may be missing where one is expected.
-/

namespace DocWiring.Config

def textOfYaml? : Yaml → Option String
  | .scalar _ _ text => some text
  | _ => none

/-- The items of a list, of which a missing one has none. -/
def itemsOfYaml? : Yaml → Option (List Yaml)
  | .list _ items => some items
  | .scalar _ true "" => some []
  | _ => none

/-- The entries of a map, of which a missing one has none. -/
def entriesOfYaml? : Yaml → Option (List (Yaml × Yaml))
  | .map _ entries => some entries
  | .scalar _ true "" => some []
  | _ => none

def textsOfYaml? (y : Yaml) : Option (List String) := do
  (← itemsOfYaml? y).mapM textOfYaml?

def flagOfYaml? : Yaml → Option Bool
  | .scalar _ true text =>
    if ["true", "True", "TRUE"].contains text then some true
    else if ["false", "False", "FALSE"].contains text then some false
    else none
  | _ => none

/-- The text says that there is nothing. -/
def saysNothing (text : String) : Bool :=
  ["", "~", "null", "Null", "NULL"].contains text

/-- The number that digits of a base stand for. -/
def countInBase? (base : Nat) (digits : List Char) : Option UInt64 := do
  if digits.isEmpty then none
  let n ← digits.foldlM
    (fun n d => do
      let v ← Json.hexValue? d
      if v < base then return n * base + v else none) 0
  if n < UInt64.size then some (UInt64.ofNat n) else none

/-- The number that a text stands for.  It may have a plus sign, and the prefix of base sixteen,
eight or two; a number in base ten has no zeros in front. -/
def countOfText? (text : List Char) : Option UInt64 :=
  let unsigned := if text.head? == some '+' then text.drop 1 else text
  match unsigned with
  | '0' :: 'x' :: digits => countInBase? 16 digits
  | '0' :: 'o' :: digits => countInBase? 8 digits
  | '0' :: 'b' :: digits => countInBase? 2 digits
  | '0' :: _ :: _ => none
  | digits => countInBase? 10 digits

def countOfYaml? : Yaml → Option (Option UInt64)
  | .scalar none true text =>
    if saysNothing text then some none else (countOfText? text.toList).map some
  | .scalar (some _) true text => (countOfText? text.toList).map some
  | _ => none

/-- A transform is a name, or a name as a tag before its suffix. -/
def transformOfYaml? : Yaml → Option Transform
  | .scalar none _ text => if text = identityName then some .identity else none
  | .scalar (some tag) plain text =>
    if tag = appendSuffixName then some (.appendSuffix text)
    else if tag = identityName && plain && saysNothing text then some .identity
    else none
  | _ => none

/-- The entries of a map under their names, each value read by `read?`. -/
def namedOfYaml? {β : Type} (read? : Yaml → Option β) (y : Yaml) : Option (List (String × β)) := do
  (← entriesOfYaml? y).mapM fun e => do return (← textOfYaml? e.1, ← read? e.2)

def rulesOfYaml? (y : Yaml) : Option AttributeRules :=
  (namedOfYaml? transformOfYaml? y).map OrderedMap.ofList

def tableOfYaml? (y : Yaml) : Option RuleTable :=
  (namedOfYaml? rulesOfYaml? y).map fun entries => ⟨OrderedMap.ofList entries⟩

def yamlFormat : Format Yaml :=
  ⟨textsOfYaml?, flagOfYaml?, countOfYaml?, tableOfYaml?⟩

def ofYaml? : Yaml → Option Config
  | .list _ items => do ofGiven? yamlFormat (← Given.ofValues? items)
  | y => do ofGiven? yamlFormat (← Given.ofNamed? (← namedOfYaml? some y))

/-- The configuration that a YAML text stands for, without validation. -/
def ofYamlText (text : List Char) : Except Error Config :=
  match Yaml.read? text with
  | none => .error (.yaml "the text is no YAML document")
  | some y =>
    match ofYaml? y with
    | some c => .ok c
    | none => .error (.yaml "the document is no configuration")

end DocWiring.Config
