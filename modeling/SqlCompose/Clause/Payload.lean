import SqlCompose.Value.Quote

/-!
# Payloads

What an `INSERT` writes and what an `UPDATE` assigns.

Rows with named fields may name different fields.  The field list then holds every field
in the order of its first occurrence, and a row that lacks a field gets its default.  Of
two entries for one field in a row, the first counts.
-/

namespace SqlCompose

/-- Fields with their operands, in order. -/
abbrev Row := List (Text × Value)

/-- What an `INSERT` writes. -/
inductive InsertPayload where
  /-- One row with named fields. -/
  | row (entries : Row)
  /-- Rows with named fields. -/
  | rows (list : List Row)
  /-- One row of all fields, by position. -/
  | tuple (cells : List Value)
  /-- Rows of all fields, by position. -/
  | tuples (list : List (List Value))

namespace InsertPayload

/-- The two parts that an `INSERT` takes from its payload; both are empty for a payload
without cells. -/
structure Parts where
  /-- The field list between brackets; empty where fields go by position. -/
  fields : Text
  /-- The rows between brackets, with commas between. -/
  values : Text
  deriving DecidableEq

/-- No fields and no rows. -/
def Parts.none : Parts := ⟨[], []⟩

/-- Adds a field behind the others unless it is among them. -/
def addField (fields : List Text) (field : Text) : List Text :=
  if field ∈ fields then fields else fields ++ [field]

/-- Every field of the rows once, in the order of first occurrence. -/
def fieldList (rows : List Row) : List Text :=
  (rows.flatMap fun row => row.map Prod.fst).foldl addField []

/-- The cell of a row under a field. -/
def cell (row : Row) (field : Text) : Text :=
  match row.lookup field with
  | some v => v.quote
  | none => "DEFAULT"

/-- Cells between brackets, with commas between. -/
def tupleText (cells : List Text) : Text := Text.bracketed (Text.joinWith ", " cells)

/-- The parts of rows with named fields. -/
def namedParts (rows : List Row) : Parts :=
  let fields := fieldList rows
  if fields.isEmpty then .none
  else
    ⟨tupleText fields, Text.joinWith ", " (rows.map fun row => tupleText (fields.map (cell row)))⟩

/-- The parts of rows by position. -/
def positionalParts (tuples : List (List Value)) : Parts :=
  if tuples.all List.isEmpty then .none
  else ⟨[], Text.joinWith ", " (tuples.map fun cells => tupleText (cells.map Value.quote))⟩

/-- The parts of a payload. -/
def parts : InsertPayload → Parts
  | row entries => namedParts [entries]
  | rows list => namedParts list
  | tuple cells => positionalParts [cells]
  | tuples list => positionalParts list

end InsertPayload

/-- What an `UPDATE` assigns. -/
inductive Assignments where
  /-- Verbatim text behind `SET`. -/
  | verbatim (text : Text)
  /-- Fields with their new values. -/
  | fields (entries : Row)
  /-- Assignments one after the other.  A list inside a list assigns nothing. -/
  | list (items : List Assignments)

namespace Assignments

/-- Assignments that are no list. -/
def part : Assignments → Text
  | verbatim text => text.trim
  | fields entries => Text.joinWith ", " (entries.map fun (field, v) => field ++ " = " ++ v.quote)
  | list _ => []

/-- The text behind `SET`. -/
def render : Assignments → Text
  | list items => Text.joinNonempty ", " (items.map part)
  | single => part single

end Assignments

end SqlCompose
