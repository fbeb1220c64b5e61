/-! # Glob patterns

A pattern is a list of tokens.  `?` stands for one character, `*` for any run of characters, a
set in brackets for one character in it or outside it, and `**` for nothing, for a run that ends
in a slash, or for everything that is left.  `**` has to be a path component of its own.
-/

namespace DocWiring.Glob

inductive FaultKind where
  | tooManyStars
  | partOfComponent
  | unclosedSet
deriving DecidableEq, Repr

/-- What is wrong with a pattern, and at which character. -/
structure Fault where
  position : Nat
  kind : FaultKind
deriving DecidableEq, Repr

def FaultKind.message : FaultKind → String
  | .tooManyStars => "wildcards are either regular `*` or recursive `**`"
  | .partOfComponent => "recursive wildcards must form a single path component"
  | .unclosedSet => "invalid range pattern"

def Fault.message (f : Fault) : String :=
  "Pattern syntax error near position " ++ toString f.position ++ ": " ++ f.kind.message

/-- A member of a set in brackets: a closed range, of one character or more or none. -/
structure Member where
  first : Char
  last : Char
deriving DecidableEq, Repr

def Member.covers (m : Member) (c : Char) : Bool :=
  m.first ≤ c && c ≤ m.last

inductive Token where
  | char (c : Char)
  | anyChar
  | anyRun
  | anyDirs
  | within (members : List Member)
  | except (members : List Member)
deriving DecidableEq, Repr

structure Pattern where
  tokens : List Token
deriving DecidableEq, Repr

/-- The members of a set, read from left to right; a hyphen between two characters makes a range. -/
def members : List Char → List Member
  | a :: '-' :: b :: r => ⟨a, b⟩ :: members r
  | a :: r => ⟨a, a⟩ :: members r
  | [] => []

/-- The content of a set whose bracket has just been read, and what follows its closing bracket.
The first character belongs to the set even when it is a closing bracket. -/
def setContent? : List Char → Option (List Char × List Char)
  | [] => none
  | m :: r =>
    match r.dropWhile (· != ']') with
    | [] => none
    | _ :: rest => some (m :: r.takeWhile (· != ']'), rest)

/-- Reads the tokens from position `pos` on, where `prev` is the character before. -/
def readTokens : Nat → Nat → Option Char → List Char → Except Fault (List Token)
  | 0, _, _, _ => .ok []
  | _ + 1, _, _, [] => .ok []
  | fuel + 1, pos, prev, c :: r =>
    if c = '?' then
      return .anyChar :: (← readTokens fuel (pos + 1) (some c) r)
    else if c = '*' then
      let stars := 1 + (r.takeWhile (· == '*')).length
      let rest := r.dropWhile (· == '*')
      if stars > 2 then
        throw ⟨pos + 2, .tooManyStars⟩
      else if stars = 2 then
        if prev.all (· == '/') then
          match rest with
          | [] => return [.anyDirs]
          | d :: after =>
            if d = '/' then
              return .anyDirs :: (← readTokens fuel (pos + 3) (some '/') after)
            else
              throw ⟨pos + 2, .partOfComponent⟩
        else
          throw ⟨pos - 1, .partOfComponent⟩
      else
        return .anyRun :: (← readTokens fuel (pos + 1) (some c) rest)
    else if c = '[' then
      let negated := r.head? == some '!'
      match setContent? (if negated then r.drop 1 else r) with
      | none => throw ⟨pos, .unclosedSet⟩
      | some (content, rest) =>
        let token := if negated then Token.except (members content) else .within (members content)
        let width := content.length + (if negated then 3 else 2)
        return token :: (← readTokens fuel (pos + width) (some ']') rest)
    else
      return .char c :: (← readTokens fuel (pos + 1) (some c) r)

def Pattern.parse (text : String) : Except Fault Pattern :=
  let cs := text.toList
  return ⟨← readTokens cs.length 0 none cs⟩

/-- A text and all that is left of it after dropping characters from its start. -/
def suffixes : List Char → List (List Char)
  | [] => [[]]
  | c :: r => (c :: r) :: suffixes r

/-- What follows each slash of a text. -/
def afterSlashes : List Char → List (List Char)
  | [] => []
  | c :: r => if c = '/' then r :: afterSlashes r else afterSlashes r

/-- The token accepts a start of the text and `rest` accepts what is left. -/
def Token.accepts (t : Token) (rest : List Char → Bool) (cs : List Char) : Bool :=
  match t with
  | .anyRun => (suffixes cs).any rest
  | .anyDirs => rest cs || (afterSlashes cs).any rest || rest []
  | .anyChar =>
    match cs with
    | [] => false
    | _ :: r => rest r
  | .char d =>
    match cs with
    | [] => false
    | c :: r => c == d && rest r
  | .within ms =>
    match cs with
    | [] => false
    | c :: r => ms.any (·.covers c) && rest r
  | .except ms =>
    match cs with
    | [] => false
    | c :: r => !ms.any (·.covers c) && rest r

def acceptsAll : List Token → List Char → Bool
  | [], cs => cs.isEmpty
  | t :: ts, cs => t.accepts (acceptsAll ts) cs

def Pattern.accepts (p : Pattern) (text : String) : Bool :=
  acceptsAll p.tokens text.toList

theorem mem_suffixes_iff {s cs : List Char} : s ∈ suffixes cs ↔ ∃ run, run ++ s = cs := by
  induction cs with
  | nil => simp [suffixes]
  | cons c r ih =>
    simp only [suffixes, List.mem_cons, ih]
    constructor
    · rintro (rfl | ⟨run, rfl⟩)
      · exact ⟨[], rfl⟩
      · exact ⟨c :: run, rfl⟩
    · rintro ⟨run, same⟩
      cases run with
      | nil => exact .inl same
      | cons d run =>
        rw [List.cons_append, List.cons.injEq] at same
        exact .inr ⟨run, same.2⟩

theorem mem_afterSlashes_iff {s cs : List Char} :
    s ∈ afterSlashes cs ↔ ∃ run, run ++ '/' :: s = cs := by
  induction cs with
  | nil => simp [afterSlashes]
  | cons c r ih =>
    have step : s ∈ afterSlashes (c :: r) ↔ (c = '/' ∧ s = r) ∨ s ∈ afterSlashes r := by
      by_cases h : c = '/' <;> simp [afterSlashes, h]
    rw [step, ih]
    constructor
    · rintro (⟨rfl, rfl⟩ | ⟨run, rfl⟩)
      · exact ⟨[], rfl⟩
      · exact ⟨c :: run, rfl⟩
    · rintro ⟨run, same⟩
      cases run with
      | nil =>
        rw [List.nil_append, List.cons.injEq] at same
        exact .inl ⟨same.1.symm, same.2⟩
      | cons d run =>
        rw [List.cons_append, List.cons.injEq] at same
        exact .inr ⟨run, same.2⟩

end DocWiring.Glob
