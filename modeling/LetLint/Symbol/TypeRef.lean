/-
References to types: a dotted name with type arguments, each of them a reference again.
-/
import LetLint.Tree.View

namespace LetLint

/-- A reference to a type by name. -/
structure TypeRef where
  segments : List String
  arguments : List TypeRef
  deriving Repr, Inhabited

namespace TypeRef

mutual

/-- Equality of references is decided part by part. -/
def decEq : (a b : TypeRef) → Decidable (a = b)
  | ⟨s, as⟩, ⟨t, bs⟩ =>
    if hs : s = t then
      match decEqAll as bs with
      | isTrue ha => isTrue (by rw [hs, ha])
      | isFalse ha => isFalse (by intro h; injection h; contradiction)
    else
      isFalse (by intro h; injection h; contradiction)

/-- Equality of lists of references. -/
def decEqAll : (as bs : List TypeRef) → Decidable (as = bs)
  | [], [] => isTrue rfl
  | [], _ :: _ => isFalse (by intro h; cases h)
  | _ :: _, [] => isFalse (by intro h; cases h)
  | a :: as, b :: bs =>
    match decEq a b, decEqAll as bs with
    | isTrue h, isTrue hs => isTrue (by rw [h, hs])
    | isFalse h, _ => isFalse (by intro e; injection e; contradiction)
    | _, isFalse hs => isFalse (by intro e; injection e; contradiction)

end

instance : DecidableEq TypeRef := decEq

/-- The pieces of some characters between dots; there is always one piece more than dots. -/
def splitDots : List Char → List (List Char)
  | [] => [[]]
  | c :: cs =>
    match splitDots cs with
    | [] => []
    | piece :: rest => if c = '.' then [] :: piece :: rest else (c :: piece) :: rest

/-- The type with a dotted name and type arguments. -/
def generic (name : String) (arguments : List TypeRef) : TypeRef :=
  ⟨(splitDots name.toList).map String.ofList, arguments⟩

/-- The type with a dotted name. -/
def named (name : String) : TypeRef := generic name []

/-! ## Text -/

mutual

/-- A reference as source text. -/
def text : TypeRef → String
  | ⟨segments, arguments⟩ => ".".intercalate segments ++ argumentsText arguments

/-- Type arguments as source text: nothing if there are none. -/
def argumentsText : List TypeRef → String
  | [] => ""
  | argument :: more => "<" ++ argument.text ++ moreText more ++ ">"

/-- Further type arguments as source text. -/
def moreText : List TypeRef → String
  | [] => ""
  | argument :: more => ", " ++ argument.text ++ moreText more

end

/-! ## Reading off a tree -/

mutual

/-- The reference that a type in a tree spells. -/
def ofTree : Tree → TypeRef
  | .leaf _ _ => ⟨[], []⟩
  | .node _ _ children => ⟨children.filterMap Tree.name?, argumentsOf children⟩

/-- The type arguments among the parts of a type. -/
def argumentsOf : List Tree → List TypeRef
  | [] => []
  | .node .typeArgumentList _ types :: rest => typesOf types ++ argumentsOf rest
  | _ :: rest => argumentsOf rest

/-- The types among some trees. -/
def typesOf : List Tree → List TypeRef
  | [] => []
  | t :: rest => if t.kind = .qualifiedType then ofTree t :: typesOf rest else typesOf rest

end

end TypeRef

end LetLint
