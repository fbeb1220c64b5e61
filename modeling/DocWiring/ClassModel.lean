/-! # Classes as the merge sees them

A class is reduced to its name, its parent, the line it starts on, the span of the doc comment
before it and the attributes it declares.  Lines are numbered from one.
-/

namespace DocWiring

mutual

/-- The value that an attribute or a list item is written with. -/
inductive Literal where
  | string (text : String)
  | list (items : List ListItem)
  | other

/-- An item of a list literal, with or without a key. -/
inductive ListItem where
  | bare (value : Literal)
  | keyed (key value : Literal)

end

mutual

def Literal.decEq : (a b : Literal) → Decidable (a = b)
  | .string s, .string t =>
    if h : s = t then isTrue (h ▸ rfl) else isFalse fun x => h (Literal.string.inj x)
  | .list xs, .list ys =>
    match ListItem.decEqList xs ys with
    | isTrue h => isTrue (h ▸ rfl)
    | isFalse h => isFalse fun x => h (Literal.list.inj x)
  | .other, .other => isTrue rfl
  | .string _, .list _ => isFalse nofun
  | .string _, .other => isFalse nofun
  | .list _, .string _ => isFalse nofun
  | .list _, .other => isFalse nofun
  | .other, .string _ => isFalse nofun
  | .other, .list _ => isFalse nofun

def ListItem.decEq : (a b : ListItem) → Decidable (a = b)
  | .bare v, .bare w =>
    match Literal.decEq v w with
    | isTrue h => isTrue (h ▸ rfl)
    | isFalse h => isFalse fun x => h (ListItem.bare.inj x)
  | .keyed k v, .keyed l w =>
    match Literal.decEq k l, Literal.decEq v w with
    | isTrue h, isTrue g => isTrue (h ▸ g ▸ rfl)
    | isFalse h, _ => isFalse fun x => h (ListItem.keyed.inj x).1
    | _, isFalse g => isFalse fun x => g (ListItem.keyed.inj x).2
  | .bare _, .keyed _ _ => isFalse nofun
  | .keyed _ _, .bare _ => isFalse nofun

def ListItem.decEqList : (as bs : List ListItem) → Decidable (as = bs)
  | [], [] => isTrue rfl
  | a :: as, b :: bs =>
    match ListItem.decEq a b, ListItem.decEqList as bs with
    | isTrue h, isTrue g => isTrue (h ▸ g ▸ rfl)
    | isFalse h, _ => isFalse fun x => h (List.cons.inj x).1
    | _, isFalse g => isFalse fun x => g (List.cons.inj x).2
  | [], _ :: _ => isFalse nofun
  | _ :: _, [] => isFalse nofun

end

instance : DecidableEq Literal := Literal.decEq

instance : DecidableEq ListItem := ListItem.decEq

instance : Inhabited Literal := ⟨.other⟩

/-- A property of a class and its default value, if it has one. -/
structure AttributeDeclaration where
  name : String
  value : Option Literal
deriving DecidableEq

/-- The items of the default value, when that is a list. -/
def AttributeDeclaration.items? (a : AttributeDeclaration) : Option (List ListItem) :=
  match a.value with
  | some (.list items) => some items
  | _ => none

/-- The first and the last line of a doc comment. -/
structure DocComment where
  startLine : Nat
  endLine : Nat
deriving DecidableEq, Repr

def DocComment.isSingleLine (c : DocComment) : Bool :=
  c.startLine == c.endLine

structure ClassNode where
  name : String
  parent : Option String
  startLine : Nat
  docComment : Option DocComment
  attributes : List AttributeDeclaration
deriving DecidableEq

end DocWiring
