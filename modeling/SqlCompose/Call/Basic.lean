import SqlCompose.Error
import SqlCompose.Pool.Server
import SqlCompose.Statement.Basic

/-!
# Calls

What can be asked of a pool, a client or a transaction.  A call is compiled first: its
plan is either an error, and then nothing else happens, or one SQL text and the reading
of the result.
-/

namespace SqlCompose

/-- What a call gives. -/
inductive Answer where
  | rows (rows : List (List Cell))
  /-- The first row, if there is one. -/
  | row (row : Option (List Cell))
  /-- The first cell of the first row. -/
  | value (cell : Cell)
  /-- The number of affected rows. -/
  | count (n : Nat)
  deriving DecidableEq

/-- A database driver, as a reader of cells for a caller who wants values of one type. -/
structure CellReader where
  /-- The value of a cell, given its row with the types of the columns, and the number of its
  column.  There may be no such column, or its cells may be none that can be read. -/
  read : (columns : List Text) → (row : List Cell) → (index : Nat) → Except QueryFailure Cell

/-- A call. -/
inductive Call where
  | query (sql : Text)
  | queryFirst (sql : Text)
  | execute (sql : Text)
  | select (q : SelectQuery)
  | selectRow (q : SelectQuery)
  | selectValue (reader : CellReader) (q : SelectQuery)
  | insert (c : InsertCommand)
  | update (c : UpdateCommand)
  | delete (c : DeleteCommand)
  | union (u : UnionQuery)
  | unionAll (u : UnionQuery)
  /-- Any statement, for its rows. -/
  | fetch (statement : Statement)
  /-- Any statement, for its number of affected rows. -/
  | affect (statement : Statement)
  /-- No statement, but an error of the caller's own. -/
  | fail (e : Error)

/-- What a call does: one statement, and the reading of its result. -/
structure Plan where
  sql : Text
  read : ResultSet → Except Error Answer

namespace Plan

/-- All rows. -/
def readRows (set : ResultSet) : Except Error Answer := .ok (.rows set.rows)

/-- The first row. -/
def readFirst (set : ResultSet) : Except Error Answer := .ok (.row set.rows.head?)

/-- The number of affected rows. -/
def readCount (set : ResultSet) : Except Error Answer := .ok (.count set.affected)

/-- The first cell of the first row; there has to be a row. -/
def readValue (reader : CellReader) (set : ResultSet) : Except Error Answer :=
  match set.rows with
  | [] => .error (.notFound "Expected one row, got none")
  | row :: _ => ((reader.read set.columns row 0).map Answer.value).mapError .query

end Plan

namespace Call

/-- A compiled statement with the reading of its result. -/
def compiled (sql : Except TableError Text) (read : ResultSet → Except Error Answer) :
    Except Error Plan :=
  (sql.map fun sql => ⟨sql, read⟩).mapError .table

/-- What a call does, or why it does nothing. -/
def plan : Call → Except Error Plan
  | query sql => .ok ⟨sql, Plan.readRows⟩
  | queryFirst sql => .ok ⟨sql, Plan.readFirst⟩
  | execute sql => .ok ⟨sql, Plan.readCount⟩
  | select q => compiled q.compile Plan.readRows
  | selectRow q => compiled q.compile Plan.readFirst
  | selectValue reader q => compiled q.compile (Plan.readValue reader)
  | insert c => compiled c.compile Plan.readCount
  | update c => compiled c.compile Plan.readCount
  | delete c => compiled c.compile Plan.readCount
  | union u => compiled (u.compileKeeping false) Plan.readRows
  | unionAll u => compiled (u.compileKeeping true) Plan.readRows
  | fetch statement => compiled statement.compile Plan.readRows
  | affect statement => compiled statement.compile Plan.readCount
  | fail e => .error e

end Call

end SqlCompose
