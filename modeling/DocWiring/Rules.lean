import DocWiring.Error
import DocWiring.OrderedMap
import DocWiring.SortedMap
import DocWiring.Text.Blank

/-! # Rules from ancestors to types

For every top ancestor the table says which attributes wire collaborators, and how the type of a
collaborator comes from its name in the list.
-/

namespace DocWiring

/-- How a type comes from a name. -/
inductive Transform where
  | identity
  | appendSuffix (suffix : String)
deriving DecidableEq, Repr

namespace Transform

def apply : Transform → String → String
  | .identity, name => name
  | .appendSuffix suffix, name => name ++ suffix

def label : Transform → String
  | .identity => "identity"
  | .appendSuffix suffix => "+" ++ suffix

end Transform

/-- The transforms by attribute. -/
abbrev AttributeRules := OrderedMap String Transform

/-- The rules by top ancestor. -/
structure RuleTable where
  rules : OrderedMap String AttributeRules
deriving DecidableEq, Repr

namespace RuleTable

def empty : RuleTable := ⟨OrderedMap.empty⟩

def insert (t : RuleTable) (ancestor : String) (rules : AttributeRules) : RuleTable :=
  ⟨t.rules.insert ancestor rules⟩

def rulesFor? (t : RuleTable) (ancestor : String) : Option AttributeRules :=
  t.rules.find? ancestor

def isEmpty (t : RuleTable) : Bool :=
  t.rules.isEmpty

/-- Every attribute that has a rule under any ancestor. -/
def attributeNames (t : RuleTable) : NameSet :=
  NameSet.ofNames (t.rules.entries.flatMap fun e => e.2.keys)

/-- The conventions that hold without a configuration. -/
def builtin : RuleTable :=
  let component := Transform.appendSuffix "Component"
  let rows : List (String × List (String × Transform)) :=
    [("Controller", [("components", component), ("uses", .identity)]),
      ("Component", [("components", component)]),
      ("Helper",
        [("components", component), ("helpers", .appendSuffix "Helper"), ("uses", .identity)]),
      ("Model",
        [("belongsTo", .identity), ("hasAndBelongsToMany", .identity), ("hasOne", .identity),
          ("hasMany", .identity)]),
      ("Shell", [("uses", .identity)])]
  ⟨OrderedMap.ofList (rows.map fun row => (row.1, OrderedMap.ofList row.2))⟩

def ruleFault? (ancestor : String) (rule : String × Transform) : Option ConfigurationFault :=
  if Text.isBlankText rule.1.toList then some (.emptyAttribute ancestor)
  else if rule.2 = .appendSuffix "" then some (.emptySuffix ancestor rule.1)
  else none

/-- What is wrong with the rules of an ancestor, names before rules. -/
def rowFault? (row : String × AttributeRules) : Option ConfigurationFault :=
  if Text.isBlankText row.1.toList then some .emptyAncestor
  else row.2.entries.findSome? (ruleFault? row.1)

/-- The first thing that is wrong with the table: a name of white space or an empty suffix. -/
def fault? (t : RuleTable) : Option ConfigurationFault :=
  t.rules.entries.findSome? rowFault?

end RuleTable

end DocWiring
