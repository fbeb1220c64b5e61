import DocWiring.Glob
import DocWiring.Path
import DocWiring.Text.Quoted

/-! # Errors

An error is a cause.  Its scope says how far it reaches: the whole run, one file or one class.
The wording of every cause is in `Error.message`.
-/

namespace DocWiring

inductive OsError where
  | notFound
  | notADirectory
  | isADirectory
  | invalidUtf8
  | other (text : String)
deriving DecidableEq, Repr

def OsError.message : OsError → String
  | .notFound => "No such file or directory (os error 2)"
  | .notADirectory => "Not a directory (os error 20)"
  | .isADirectory => "Is a directory (os error 21)"
  | .invalidUtf8 => "stream did not contain valid UTF-8"
  | .other text => text

/-- What makes a configuration useless. -/
inductive ConfigurationFault where
  | unreadable (path : Path) (cause : OsError)
  | invalidGlob (pattern : String) (fault : Glob.Fault)
  | noWorkers
  | emptyAncestor
  | emptyAttribute (ancestor : String)
  | emptySuffix (ancestor attr : String)
  | uncollected (attr : String)
  | other (text : String)
deriving DecidableEq, Repr

def ConfigurationFault.message : ConfigurationFault → String
  | .unreadable path cause => "cannot read " ++ path.text ++ ": " ++ cause.message
  | .invalidGlob pattern fault =>
    "invalid glob " ++ Text.quotedText pattern ++ ": " ++ fault.message
  | .noWorkers => "workers must be at least 1"
  | .emptyAncestor => "empty top ancestor name"
  | .emptyAttribute ancestor => "empty attribute name under " ++ ancestor
  | .emptySuffix ancestor attr => "empty suffix for " ++ ancestor ++ "." ++ attr
  | .uncollected attr =>
    "attribute " ++ Text.quotedText attr ++ " is not collected by the extractor"
  | .other text => text

/-- What is inconsistent about the classes or the edits of one file. -/
inductive StructuralFault where
  | duplicateAttribute (attr className : String) (path : Path) (line : Nat)
  | duplicateClass (className : String) (path : Path) (line : Nat)
  | misplacedPatch (start stop fileLength : Nat)
  | other (text : String)
deriving DecidableEq, Repr

def StructuralFault.message : StructuralFault → String
  | .duplicateAttribute attr className path line =>
    "attribute $" ++ attr ++ " declared twice in class " ++ className ++
      " (" ++ path.text ++ ":" ++ toString line ++ ")"
  | .duplicateClass className path line =>
    "class " ++ className ++ " already encountered (" ++ path.text ++ ":" ++ toString line ++ ")"
  | .misplacedPatch start stop fileLength =>
    "patch for lines " ++ toString (start + 1) ++ ".." ++ toString stop ++
      " overlaps another or lies outside a " ++ toString fileLength ++ "-line file"
  | .other text => text

/-- What keeps a comment from being taken as a block of whole lines. -/
inductive FormatFault where
  | noLines
  | oneLine
  | classOutside
  | commentOutside
  | startsInsideLine
  | notClosed
  | codeFollows
  | emptyComment
  | other (text : String)
deriving DecidableEq, Repr

def FormatFault.message : FormatFault → String
  | .noLines => "expected at least two lines, none found"
  | .oneLine => "expected at least two lines, only one found"
  | .classOutside => "class declaration line is outside the file"
  | .commentOutside => "doc comment span is outside the file"
  | .startsInsideLine => "doc comment does not start its line"
  | .notClosed => "doc comment is not closed"
  | .codeFollows => "code follows the doc comment on the same line"
  | .emptyComment => "empty doc comment"
  | .other text => text

inductive IoFault where
  | os (cause : OsError)
  | atPath (path : Path) (cause : OsError)
  | unencodable (char : Char)
  | other (text : String)
deriving DecidableEq, Repr

def IoFault.message : IoFault → String
  | .os cause => cause.message
  | .atPath path cause => path.text ++ ": " ++ cause.message
  | .unencodable char => Text.quotedLetter char ++ " cannot be written as ISO-8859-1"
  | .other text => text

inductive Scope where
  | wholeRun
  | oneFile
  | oneClass
deriving DecidableEq, Repr

inductive Error where
  | configuration (fault : ConfigurationFault)
  | parse (path : Path) (reason : String)
  | structural (fault : StructuralFault)
  | ancestorCycle (className : String) (chain : List String)
  | format (line : Nat) (fault : FormatFault)
  | io (fault : IoFault)
  | json (reason : String)
  | yaml (reason : String)
deriving DecidableEq, Repr

namespace Error

/-- How far the error reaches: a bad configuration ends the run, an unreadable file is left out,
and any other error leaves out one class. -/
def scope : Error → Scope
  | .configuration _ | .json _ | .yaml _ => .wholeRun
  | .parse _ _ | .io _ => .oneFile
  | .structural _ | .ancestorCycle _ _ | .format _ _ => .oneClass

def message : Error → String
  | .configuration fault => "configuration error: " ++ fault.message
  | .parse path reason => "cannot parse " ++ path.text ++ ": " ++ reason
  | .structural fault => "structural error: " ++ fault.message
  | .ancestorCycle className chain =>
    "class " ++ className ++ " has a cyclic ancestor chain: " ++ String.intercalate " -> " chain
  | .format line fault => "format error at line " ++ toString line ++ ": " ++ fault.message
  | .io fault => "IO error: " ++ fault.message
  | .json reason => "JSON error: " ++ reason
  | .yaml reason => "YAML error: " ++ reason

end Error

end DocWiring
