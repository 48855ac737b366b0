import SqlCompose.Binary64.Layout
import SqlCompose.Text.Blank
import SqlCompose.Value.Basic

/-!
# Literals

`Value.quote` writes an operand as PostgreSQL reads it.

Text without a backslash or control character stands between single quotes, with a single
quote inside written twice.  Any other text takes the escape form `E'...'`, whose meaning
does not depend on the server's `standard_conforming_strings`; NUL cannot be written in
either form and is left out.  Both forms are the concatenation of one piece for each
character.

A list is written as its members with commas between, ready for `IN (...)`; a list inside
a list stands between round brackets.
-/

namespace SqlCompose

namespace Text

/-- Whether a character makes the escape form necessary. -/
def needsEscape (c : Char) : Bool := c == '\\' || isControl c

/-- A character between plain quotes. -/
def plainPiece (c : Char) : Text := if c = '\'' then ['\'', '\''] else [c]

/-- A character in the escape form. -/
def escapePiece (c : Char) : Text :=
  match c with
  | '\x00' => []
  | '\'' => ['\'', '\'']
  | '\\' => ['\\', '\\']
  | '\n' => ['\\', 'n']
  | '\r' => ['\\', 'r']
  | '\t' => ['\\', 't']
  | '\x08' => ['\\', 'b']
  | '\x0c' => ['\\', 'f']
  | c => if isControl c then '\\' :: 'u' :: upper (fixedDigits 16 4 c.toNat) else [c]

/-- A text as one string literal. -/
def quote (t : Text) : Text :=
  if t.any needsEscape then 'E' :: '\'' :: t.flatMap escapePiece ++ ['\'']
  else '\'' :: t.flatMap plainPiece ++ ['\'']

end Text

namespace Value

/-- Text that needs no care between single quotes. -/
def apostrophes (body : Text) : Text := '\'' :: body ++ ['\'']

/-- A byte string in hexadecimal, cast to its type. -/
def quoteBytes (data : List UInt8) : Text :=
  apostrophes ("\\x" ++ data.flatMap fun b => Text.fixedDigits 16 2 b.toNat) ++ "::bytea"

/-- A number as it is, and the rest of the floating-point data by name. -/
def quoteFloat (x : Binary64) : Text :=
  match x.view with
  | .nan => apostrophes "NaN"
  | .infinite negative => apostrophes (if negative then "-Infinity" else "Infinity")
  | .finite negative m e => Binary64.Layout.sql.write negative m e

mutual

/-- An operand as SQL. -/
def quote : Value → Text
  | null => "NULL"
  | bool b => if b then "true" else "false"
  | int n => Text.ofInt n.toInt
  | float x => quoteFloat x
  | text t => t.quote
  | bytes data => quoteBytes data
  | date d => apostrophes d.render
  | timestamp t => apostrophes t.render
  | timestampUtc t => apostrophes (t.render ++ "+00:00")
  | list items => Text.joinWith ", " (quoteItems items)
  | raw sql => sql

/-- The members of a list, each as SQL. -/
def quoteItems : List Value → List Text
  | [] => []
  | item :: rest =>
    (if item.isList then Text.bracketed (quote item) else quote item) :: quoteItems rest

end

/-- Members are written one by one. -/
theorem quoteItems_eq_map (items : List Value) :
    quoteItems items =
      items.map fun item => if item.isList then Text.bracketed item.quote else item.quote := by
  induction items with
  | nil => simp [quoteItems]
  | cons item rest ih => simp [quoteItems, ih]

end Value

end SqlCompose
