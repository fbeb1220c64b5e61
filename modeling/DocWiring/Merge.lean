import DocWiring.DocBlock.Block
import DocWiring.Rules
import DocWiring.Wiring.Extraction

/-! # Merging annotations into a class

The wiring of a class and the rules of its top ancestor give the annotations the class should
have.  Those that its doc block lacks are added; existing ones can be taken out first.
-/

namespace DocWiring.Merge

/-- The annotations for the symbols of one attribute. -/
def ofAttribute (rules : AttributeRules) (wiring : String × SymbolMap) : List Annotation :=
  match rules.find? wiring.1 with
  | some transform => wiring.2.entries.map fun e => ⟨transform.apply e.2, e.1⟩
  | none => []

/-- The annotations a class should have.  Every attribute with a rule has to be in the vocabulary
of the extractor. -/
def render (x : Extractor) (extraction : Extraction) (rules : AttributeRules) :
    Except Error (List Annotation) :=
  match rules.keys.find? fun name => !x.knows name with
  | some name => .error (.configuration (.uncollected name))
  | none => .ok (extraction.attributes.entries.flatMap (ofAttribute rules))

/-- The annotations that are not in the block when their turn comes. -/
def missing (b : DocBlock) : List Annotation → List Annotation
  | [] => []
  | a :: rest => if b.contains a then missing b rest else a :: missing (b.insert a) rest

/-- The block of a class with the annotations it should have, where `remove` first takes out those
that stand there.  There is no patch when none was missing or when nothing changes. -/
def mergeBlock (remove : Bool) (annotations : List Annotation) (located : DocBlock) :
    Option Patch :=
  let block := if remove then located.clear else located
  if (missing block annotations).isEmpty then none
  else (annotations.foldl DocBlock.insert block).toPatch?

/-- The patch that brings the doc block of a class up to date. -/
def merge (x : Extractor) (remove : Bool) (u : SourceUnit) (cls : ClassNode)
    (extraction : Extraction) (rules : AttributeRules) : Except Error (Option Patch) := do
  let annotations ← render x extraction rules
  if annotations.isEmpty then
    return none
  else
    return mergeBlock remove annotations (← DocBlock.locate u cls)

end DocWiring.Merge
