import SqlCompose.Clause.Order
import SqlCompose.Clause.Payload
import SqlCompose.Clause.RowLimit
import SqlCompose.Clause.Table

/-!
# Commands

`INSERT`, `UPDATE` and `DELETE`.  Each needs a table that can be written and has no other
fault: an `UPDATE` or `DELETE` without a condition is about every row.
-/

namespace SqlCompose

/-- An `INSERT`.  A payload comes before the verbatim field and value lists. -/
structure InsertCommand where
  table : Option TableRef := none
  payload : Option InsertPayload := none
  /-- A verbatim field list, without its brackets. -/
  fields : Option Text := none
  /-- A verbatim value list, without its brackets. -/
  values : Option Text := none

namespace InsertCommand

/-- A verbatim list between brackets, or nothing for a blank one. -/
def verbatimList (list : Option Text) : Text :=
  let body := (list.map Text.trim).getD []
  if body.isEmpty then [] else Text.bracketed body

/-- The field list and the rows. -/
def parts (c : InsertCommand) : InsertPayload.Parts :=
  match c.payload with
  | some payload => payload.parts
  | none => ⟨verbatimList c.fields, verbatimList c.values⟩

/-- The command as SQL.  Without any values it inserts one row of defaults. -/
def compile (c : InsertCommand) : Except TableError Text := do
  let table ← TableRef.renderRequired c.table
  let parts := c.parts
  if parts.values.isEmpty then return Text.spaced ["INSERT INTO", table, "DEFAULT VALUES"]
  return Text.spaced ["INSERT INTO", table, parts.fields, "VALUES", parts.values]

end InsertCommand

/-- An `UPDATE`. -/
structure UpdateCommand where
  table : Option TableRef := none
  assignments : Option Assignments := none
  filter : Option Condition := none
  orderBy : Option OrderBy := none
  limit : Option RowLimit := none

/-- The command as SQL. -/
def UpdateCommand.compile (c : UpdateCommand) : Except TableError Text := do
  let table ← TableRef.renderRequired c.table
  return Text.spaced ["UPDATE", table, "SET", (c.assignments.map Assignments.render).getD [],
    Condition.whereClause c.filter, OrderBy.clause c.orderBy, RowLimit.clause c.limit]

/-- A `DELETE`. -/
structure DeleteCommand where
  table : Option TableRef := none
  filter : Option Condition := none
  orderBy : Option OrderBy := none
  limit : Option RowLimit := none

/-- The command as SQL. -/
def DeleteCommand.compile (c : DeleteCommand) : Except TableError Text := do
  let table ← TableRef.renderRequired c.table
  return Text.spaced ["DELETE FROM", table, Condition.whereClause c.filter,
    OrderBy.clause c.orderBy, RowLimit.clause c.limit]

end SqlCompose
