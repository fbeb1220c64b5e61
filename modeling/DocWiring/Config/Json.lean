import DocWiring.Config.Fields
import DocWiring.Json.Reader

/-! # Configurations in JSON -/

namespace DocWiring.Config

def jsonOfTransform : Transform → Json
  | .identity => .ofString identityName
  | .appendSuffix suffix => .ofFields [(appendSuffixName, .ofString suffix)]

def jsonOfRules (rules : AttributeRules) : Json :=
  .ofFields (rules.entries.map fun e => (e.1, jsonOfTransform e.2))

def jsonOfTable (t : RuleTable) : Json :=
  .ofFields (t.rules.entries.map fun e => (e.1, jsonOfRules e.2))

def jsonOfTexts (texts : List String) : Json :=
  .array (texts.map .ofString)

/-- The JSON value of a configuration.  The number of workers is left out when it is not set. -/
def toJson (c : Config) : Json :=
  .ofFields <|
    [(Field.included.name, jsonOfTexts c.included), (Field.excluded.name, jsonOfTexts c.excluded),
      (Field.removeUnknown.name, .bool c.removeUnknown)] ++
    (c.workers.toList.map fun n => (Field.workers.name, .ofNat n.toNat)) ++
    [(Field.transforms.name, jsonOfTable c.transforms)]

def save (c : Config) : List Char :=
  c.toJson.print 0

def textOfJson? : Json → Option String
  | .string text => text
  | _ => none

def textsOfJson? : Json → Option (List String)
  | .array items => items.mapM textOfJson?
  | _ => none

def flagOfJson? : Json → Option Bool
  | .bool value => some value
  | _ => none

/-- The number that digits stand for, if they are digits only and it fits in 64 bits. -/
def countOfDigits? (digits : List Char) : Option UInt64 :=
  if digits.all Char.isDigit then
    let n := Nat.ofDigitChars 10 digits 0
    if n < UInt64.size then some (UInt64.ofNat n) else none
  else none

def countOfJson? : Json → Option (Option UInt64)
  | .null => some none
  | .number digits => (countOfDigits? digits).map some
  | _ => none

def transformOfJson? : Json → Option Transform
  | .string (some name) => if name = identityName then some .identity else none
  | .object [(some name, .null)] => if name = identityName then some .identity else none
  | .object [(some name, .string (some suffix))] =>
    if name = appendSuffixName then some (.appendSuffix suffix) else none
  | _ => none

/-- The entries of an object, each value read by `read?`. -/
def entriesOfJson? {β : Type} (read? : Json → Option β) : Json → Option (List (String × β))
  | .object fields => fields.mapM fun f => do return (← f.1, ← read? f.2)
  | _ => none

def rulesOfJson? (j : Json) : Option AttributeRules :=
  (entriesOfJson? transformOfJson? j).map OrderedMap.ofList

def tableOfJson? (j : Json) : Option RuleTable :=
  (entriesOfJson? rulesOfJson? j).map fun entries => ⟨OrderedMap.ofList entries⟩

def jsonFormat : Format Json :=
  ⟨textsOfJson?, flagOfJson?, countOfJson?, tableOfJson?⟩

def ofJson? : Json → Option Config
  | .object fields => do
    let named ← fields.mapM fun f => do return (← f.1, f.2)
    ofGiven? jsonFormat (← Given.ofNamed? named)
  | .array items => do ofGiven? jsonFormat (← Given.ofValues? items)
  | _ => none

/-- The configuration that a JSON text stands for, without validation. -/
def ofJsonText (text : List Char) : Except Error Config :=
  match Json.read? text with
  | none => .error (.json "the text is no JSON value")
  | some v =>
    match ofJson? v with
    | some c => .ok c
    | none => .error (.json "the value is no configuration")

end DocWiring.Config
