/-! # Arguments

Switches have a long form after two hyphens and may have a short one after a single hyphen.  Short
switches can be run together.  The value of a switch is the next argument, or follows in the same
one, after an equals sign if need be.  Two hyphens alone end the switches.
-/

namespace DocWiring.Cli

inductive Switch where
  | config
  | verbose
  | quiet
  | force
  | dryRun
  | remove
  | diff
  | workers
  | version
  | help
deriving DecidableEq, Repr

namespace Switch

def long : Switch → String
  | .config => "config"
  | .verbose => "verbose"
  | .quiet => "quiet"
  | .force => "force"
  | .dryRun => "dry-run"
  | .remove => "remove"
  | .diff => "diff"
  | .workers => "workers"
  | .version => "version"
  | .help => "help"

def short? : Switch → Option Char
  | .config => some 'c'
  | .verbose => some 'v'
  | .quiet => some 'q'
  | .force => some 'f'
  | .workers => some 'j'
  | .version => some 'V'
  | .help => some 'h'
  | .dryRun => none
  | .remove => none
  | .diff => none

def takesValue : Switch → Bool
  | .config => true
  | .workers => true
  | _ => false

end Switch

/-- Why reading arguments ends early. -/
inductive Stop where
  | rejected
  | version
  | help
deriving DecidableEq, Repr

/-- A number that fits in 64 bits, perhaps with a plus sign. -/
def countOfText? (text : List Char) : Option UInt64 :=
  let digits := if text.head? == some '+' then text.drop 1 else text
  if digits.isEmpty || !digits.all Char.isDigit then none
  else
    let n := Nat.ofDigitChars 10 digits 0
    if n < UInt64.size then some (UInt64.ofNat n) else none

/-- The value is one that the switch can have. -/
def fits (s : Switch) (value : List Char) : Bool :=
  match s with
  | .workers => (countOfText? value).isSome
  | .config => !value.isEmpty
  | _ => value.isEmpty

/-- A switch with its value, which is empty for a switch without one. -/
abbrev Given := Switch × List Char

/-- Adds a switch.  A switch may be given once, and asking for help or for the version ends the
reading. -/
def give (given : List Given) (s : Switch) (value : List Char) : Except Stop (List Given) :=
  match s with
  | .version => .error .version
  | .help => .error .help
  | _ =>
    if fits s value && given.all fun g => g.1 != s then .ok (given ++ [(s, value)])
    else .error .rejected

/-- The switches that an argument gives, and the one that it leaves without its value. -/
structure Reading where
  given : List Given
  pending : Option Switch

/-- Reads a long switch, without its hyphens. -/
def readLong (allowed : List Switch) (given : List Given) (text : List Char) :
    Except Stop Reading :=
  let name := text.takeWhile (· != '=')
  let rest := text.drop name.length
  match allowed.find? fun s => s.long.toList == name with
  | none => .error .rejected
  | some s =>
    match rest with
    | [] => if s.takesValue then .ok ⟨given, some s⟩ else do return ⟨← give given s [], none⟩
    | _ :: value =>
      if s.takesValue then do return ⟨← give given s value, none⟩ else .error .rejected

/-- Reads short switches that are run together, without their hyphen. -/
def readShort (allowed : List Switch) (given : List Given) : List Char → Except Stop Reading
  | [] => .ok ⟨given, none⟩
  | c :: r =>
    match allowed.find? fun s => s.short? == some c with
    | none => .error .rejected
    | some s =>
      if s.takesValue then
        match r with
        | [] => .ok ⟨given, some s⟩
        | '=' :: value => do return ⟨← give given s value, none⟩
        | value => do return ⟨← give given s value, none⟩
      else do readShort allowed (← give given s []) r

def looksLikeSwitch : List Char → Bool
  | '-' :: _ :: _ => true
  | _ => false

/-- Switches and the words that stand between them or after two hyphens. -/
structure Parsed where
  given : List Given
  words : List (List Char)

/-- Reads arguments, where `pending` is a switch that waits for its value.  With `firstOnly` the first
word ends the switches, and all that follows it is left as it is; no word can come after two hyphens
then. -/
def readArguments (allowed : List Switch) (firstOnly : Bool) :
    (pending : Option Switch) → List Given → List (List Char) → Except Stop Parsed
  | none, given, [] => .ok ⟨given, []⟩
  | some _, _, [] => .error .rejected
  | some s, given, value :: rest =>
    if looksLikeSwitch value then .error .rejected
    else do readArguments allowed firstOnly none (← give given s value) rest
  | none, given, arg :: rest =>
    if arg = ['-', '-'] then
      if firstOnly then .error .rejected else .ok ⟨given, rest⟩
    else if looksLikeSwitch arg then do
      let reading ←
        match arg with
        | '-' :: '-' :: text => readLong allowed given text
        | _ => readShort allowed given (arg.drop 1)
      readArguments allowed firstOnly reading.pending reading.given rest
    else if firstOnly then .ok ⟨given, arg :: rest⟩
    else do
      let parsed ← readArguments allowed firstOnly none given rest
      return { parsed with words := arg :: parsed.words }

end DocWiring.Cli
