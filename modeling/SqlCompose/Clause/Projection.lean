import SqlCompose.Text.Blank

/-!
# Projections

What a `SELECT` asks for: verbatim text, columns with aliases, or columns qualified by
their table, in lists of any depth.  Whatever says nothing is left out, and a projection
that says nothing at all asks for every column.
-/

namespace SqlCompose

/-- What a key of a projection is listed with. -/
inductive ColumnTarget where
  /-- `key AS name`. -/
  | renamed (name : Text)
  /-- `key.column`, for each of the columns. -/
  | columns (names : List Text)
  deriving DecidableEq

/-- A key with its target, each column of it. -/
def ColumnTarget.columnTexts (key : Text) : ColumnTarget → List Text
  | renamed name => [key ++ " AS " ++ name]
  | columns names => names.map fun name => key ++ '.' :: name

/-- What a `SELECT` asks for. -/
inductive Projection where
  | verbatim (text : Text)
  | list (items : List Projection)
  | keyed (entries : List (Text × ColumnTarget))

namespace Projection

mutual

/-- The columns with commas between. -/
def columns : Projection → Text
  | verbatim text => text.trim
  | list items => Text.joinNonempty ", " (columnsOfAll items)
  | keyed entries =>
    Text.joinNonempty ", " (entries.map fun (key, target) =>
      Text.joinWith ", " (target.columnTexts key))

/-- The columns of each of several projections. -/
def columnsOfAll : List Projection → List Text
  | [] => []
  | item :: rest => columns item :: columnsOfAll rest

end

/-- The projection of a `SELECT`; a star if there is none or it names no column. -/
def render (p : Option Projection) : Text :=
  let text := (p.map columns).getD []
  if text.isEmpty then "*" else text

theorem columnsOfAll_eq_map (items : List Projection) :
    columnsOfAll items = items.map columns := by
  induction items with
  | nil => rfl
  | cons item rest ih => simp [columnsOfAll, ih]

end Projection

end SqlCompose
