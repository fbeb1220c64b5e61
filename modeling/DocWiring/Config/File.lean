import DocWiring.Config.Json
import DocWiring.Config.Yaml
import DocWiring.FileTree
import DocWiring.Source.Encoding

/-! # Configuration files

The extension of a configuration file says what its text is written in: YAML if it is `yaml` or
`yml`, and JSON otherwise.  A configuration is always saved as JSON.
-/

namespace DocWiring.Config

/-- The file that is looked for if no other one is named. -/
def standardFile : Path := ⟨".magic.config.json"⟩

/-- The extension of the file says that it is written in YAML. -/
def isYamlFile (p : Path) : Bool :=
  p.extension? == some "yaml".toList || p.extension? == some "yml".toList

/-- The text of a file, which has to be UTF-8. -/
def textOfBytes (bytes : ByteArray) : Except OsError (List Char) :=
  match bytes.utf8Decode? with
  | some text => .ok text.toList
  | none => .error .invalidUtf8

/-- The configuration that a file holds, validated, from what reading the file gave. -/
def ofFile (p : Path) (content : Except OsError ByteArray) : Except Error Config :=
  match content.bind textOfBytes with
  | .error cause => .error (.configuration (.unreadable p cause))
  | .ok text => do
    let c ← if isYamlFile p then ofYamlText text else ofJsonText text
    c.validated

/-- The bytes that a configuration is saved as. -/
def toBytes (c : Config) : ByteArray :=
  (String.ofList c.save).toByteArray

def load (t : FileTree ByteArray) (p : Path) : Except Error Config :=
  ofFile p (t.read p)

def loadOrStandard (t : FileTree ByteArray) (p : Path) : Except Error Config :=
  if t.contains p then load t p else .ok standard

end DocWiring.Config
