/-!
# Text

Every SQL fragment, name and message of the library is a `Text`: a list of Unicode
scalar values.  Scanning and writing are then plain list recursion, and what a reader
consumes is a suffix of what it was given.

Written constants are `lit "..."`, inserted by a coercion.  `lit` is a definition of its
own, so a keyword stays one term until a proof asks for its characters.
-/

namespace SqlCompose

/-- A sequence of Unicode scalar values. -/
abbrev Text := List Char

/-- The characters of a written constant. -/
def lit (s : String) : Text := s.toList

instance : Coe String Text := ⟨lit⟩

namespace Text

/-- The pieces with a separator between neighbours. -/
abbrev joinWith (sep : Text) (pieces : List Text) : Text := sep.intercalate pieces

/-- The pieces that hold at least one character, in order. -/
def nonempty (pieces : List Text) : List Text :=
  pieces.filter (fun piece => !piece.isEmpty)

@[simp] theorem mem_nonempty {piece : Text} {pieces : List Text} :
    piece ∈ nonempty pieces ↔ piece ∈ pieces ∧ piece ≠ [] := by
  simp [nonempty]

@[simp] theorem nonempty_append (left right : List Text) :
    nonempty (left ++ right) = nonempty left ++ nonempty right := by
  simp [nonempty]

/-- The non-empty pieces with a separator between neighbours: an empty piece leaves no
stray separator behind. -/
def joinNonempty (sep : Text) (pieces : List Text) : Text :=
  joinWith sep (nonempty pieces)

/-- The non-empty pieces with single spaces between: clauses in the order of SQL, of which
one that says nothing leaves no gap. -/
def spaced (pieces : List Text) : Text := joinNonempty " " pieces

/-- A keyword and its body with a space between, or nothing when the body is empty. -/
def clause (keyword body : Text) : Text :=
  if body.isEmpty then [] else keyword ++ ' ' :: body

/-- Text between round brackets. -/
def bracketed (body : Text) : Text :=
  '(' :: body ++ [')']

/-- Upper case of the 26 Latin letters; every other character stays. -/
def upper (t : Text) : Text := t.map Char.toUpper

/-- Lower case of the 26 Latin letters; every other character stays. -/
def lower (t : Text) : Text := t.map Char.toLower

end Text

end SqlCompose
