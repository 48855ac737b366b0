import SqlCompose.Clause.Order
import SqlCompose.Clause.Projection
import SqlCompose.Clause.RowLimit
import SqlCompose.Clause.Table

/-!
# Queries

A `SELECT`, and the union of several.  The one fault that a query can have is a table, its
own or one that it joins, that cannot be written.
-/

namespace SqlCompose

/-- A `SELECT`.  It needs a table; every other part may be unset. -/
structure SelectQuery where
  table : Option TableRef := none
  joins : List Join := []
  distinct : Bool := false
  top : Option Top := none
  fields : Option Projection := none
  filter : Option Condition := none
  groupBy : Option GroupBy := none
  /-- A condition on groups, which is written only where there are groups. -/
  having : Option Condition := none
  orderBy : Option OrderBy := none
  limit : Option RowLimit := none

namespace SelectQuery

/-- The query with one more join at the end of its chain. -/
def withJoin (q : SelectQuery) (j : Join) : SelectQuery := { q with joins := q.joins ++ [j] }

/-- The query as SQL. -/
def compile (q : SelectQuery) : Except TableError Text := do
  let table ← TableRef.renderRequired q.table
  let joins ← Join.renderChain q.table q.joins
  return Text.spaced ["SELECT", distinctClause q.distinct, Top.clause q.top,
    Projection.render q.fields, "FROM", table, joins, Condition.whereClause q.filter,
    GroupBy.clauseWithHaving q.groupBy q.having, OrderBy.clause q.orderBy,
    RowLimit.clause q.limit]

/-- The query between brackets, as it stands inside another statement. -/
def compileSubquery (q : SelectQuery) : Except TableError Text := do
  let sql ← q.compile
  return Text.bracketed sql

end SelectQuery

/-- The rows of several queries together. -/
structure UnionQuery where
  selects : List SelectQuery := []
  /-- The order of all the rows. -/
  orderBy : Option OrderBy := none
  /-- Whether equal rows are all kept. -/
  keepsDuplicates : Bool := false

namespace UnionQuery

/-- The union with one more query at its end. -/
def withSelect (u : UnionQuery) (q : SelectQuery) : UnionQuery :=
  { u with selects := u.selects ++ [q] }

/-- The union as SQL, with equal rows all kept or not. -/
def compileKeeping (u : UnionQuery) (duplicates : Bool) : Except TableError Text := do
  let selects ← u.selects.mapM SelectQuery.compile
  let word : Text := if duplicates then " UNION ALL " else " UNION "
  return Text.spaced [Text.joinNonempty word selects, OrderBy.clause u.orderBy]

/-- The union as SQL. -/
def compile (u : UnionQuery) : Except TableError Text := u.compileKeeping u.keepsDuplicates

end UnionQuery

end SqlCompose
