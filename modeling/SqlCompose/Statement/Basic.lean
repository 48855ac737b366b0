import SqlCompose.Statement.Command
import SqlCompose.Statement.Query

/-!
# Statements

The five kinds of statements under one type.  Queries return rows, commands a number of
affected rows.
-/

namespace SqlCompose

/-- The kinds of statements. -/
inductive StatementKind where
  | select
  | union
  | insert
  | update
  | delete
  deriving DecidableEq

namespace StatementKind

/-- The kind as a word of SQL. -/
def render : StatementKind → Text
  | select => "SELECT"
  | union => "UNION"
  | insert => "INSERT"
  | update => "UPDATE"
  | delete => "DELETE"

/-- Whether statements of the kind return rows. -/
def returnsRows : StatementKind → Bool
  | select | union => true
  | insert | update | delete => false

end StatementKind

/-- A statement. -/
inductive Statement where
  | select (q : SelectQuery)
  | union (u : UnionQuery)
  | insert (c : InsertCommand)
  | update (c : UpdateCommand)
  | delete (c : DeleteCommand)

namespace Statement

/-- The kind of a statement. -/
def kind : Statement → StatementKind
  | select _ => .select
  | union _ => .union
  | insert _ => .insert
  | update _ => .update
  | delete _ => .delete

/-- The statement as SQL. -/
def compile : Statement → Except TableError Text
  | select q => q.compile
  | union u => u.compile
  | insert c => c.compile
  | update c => c.compile
  | delete c => c.compile

end Statement

end SqlCompose
