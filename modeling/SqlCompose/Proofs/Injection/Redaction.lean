import SqlCompose.Proofs.Reading.Operand
import SqlCompose.Statement.Basic

/-!
# Statements without their text operands

Three views of a statement, each defined along with the statement.

* `redact` makes every text operand empty, at any depth, and leaves all else
  as it is.  Two statements that have one redaction differ at most in the
  contents of their text operands.
* `verbatims` collects what is written without quoting: names, operators, raw
  SQL and the texts of clauses.
* `contents` lists what the string literals of the written statement have to
  mean, from left to right: a text operand without its NUL characters, and
  the bytes, days, times and special floating-point data that are written as
  literals too.  An operand that is not written is not listed.
-/

namespace SqlCompose

/-- What holds of all that a list is written with holds of what a member is written with. -/
theorem forall_of_flatMap {α : Type} {P : Text → Prop} {verbatims : α → List Text} {xs : List α}
    (h : ∀ t ∈ xs.flatMap verbatims, P t) {x : α} (hx : x ∈ xs) : ∀ t ∈ verbatims x, P t :=
  fun t ht => h t (List.mem_flatMap.2 ⟨x, hx, ht⟩)

/-! ## Operands -/

namespace Value

mutual

/-- The operand with its texts made empty. -/
def redact : Value → Value
  | text _ => text []
  | list items => list (redactItems items)
  | v => v

/-- Operands with their texts made empty. -/
def redactItems : List Value → List Value
  | [] => []
  | item :: rest => redact item :: redactItems rest

end

mutual

/-- What the literals of an operand mean. -/
def contents : Value → List Text
  | text t => [t.withoutNul]
  | bytes data => [bytesBody data]
  | date d => [d.render]
  | timestamp t => [t.render]
  | timestampUtc t => [t.render ++ "+00:00"]
  | float x =>
    match x.view with
    | .nan => ["NaN"]
    | .infinite negative => [if negative then "-Infinity" else "Infinity"]
    | .finite _ _ _ => []
  | list items => contentsOfItems items
  | null | bool _ | int _ | raw _ => []

/-- What the literals of several operands mean. -/
def contentsOfItems : List Value → List Text
  | [] => []
  | item :: rest => contents item ++ contentsOfItems rest

end

@[simp] theorem isList_redact (v : Value) : v.redact.isList = v.isList := by
  cases v <;> rfl

mutual

/-- Redaction keeps what is written without quoting. -/
@[simp] theorem verbatims_redact : ∀ v : Value, v.redact.verbatims = v.verbatims
  | list items => verbatimsOfItems_redactItems items
  | null | bool _ | int _ | float _ | text _ | bytes _ | date _ | timestamp _ | timestampUtc _
  | raw _ => rfl

theorem verbatimsOfItems_redactItems : ∀ items : List Value,
    verbatimsOfItems (redactItems items) = verbatimsOfItems items
  | [] => rfl
  | item :: rest => by
    rw [redactItems, verbatimsOfItems, verbatimsOfItems, verbatims_redact item,
      verbatimsOfItems_redactItems rest]

end

end Value

/-! ## Predicates -/

namespace Test

def redact : Test → Test
  | compare op v => compare op v.redact
  | like v => like v.redact
  | among v => among v.redact
  | isNull => isNull
  | between v w => between v.redact w.redact
  | hasRows sql => hasRows sql

def verbatims : Test → List Text
  | compare op v => op :: v.verbatims
  | like v => v.verbatims
  | among v => v.verbatims
  | isNull => []
  | between v w => v.verbatims ++ w.verbatims
  | hasRows sql => [sql]

def contents : Test → List Text
  | compare _ v => v.contents
  | like v => v.contents
  | among v => v.contents
  | between v w => v.contents ++ w.contents
  | isNull | hasRows _ => []

@[simp] theorem verbatims_redact (t : Test) : t.redact.verbatims = t.verbatims := by
  cases t <;> simp [redact, verbatims]

@[simp] theorem needsField_redact (t : Test) : t.redact.needsField = t.needsField := by
  cases t <;> rfl

end Test

namespace Criterion

def redact (c : Criterion) : Criterion :=
  { c with predicate := { c.predicate with test := c.predicate.test.redact } }

def verbatims (c : Criterion) : List Text := c.field.toList ++ c.predicate.test.verbatims

/-- What the literals of a criterion mean, if it is written at all. -/
def contents (context : Option Text) (c : Criterion) : List Text :=
  if (c.render context).isEmpty then [] else c.predicate.test.contents

@[simp] theorem verbatims_redact (c : Criterion) : c.redact.verbatims = c.verbatims := by
  simp [redact, verbatims]

end Criterion

namespace Operand

def redact : Operand → Operand
  | value v => value v.redact
  | criterion c => criterion c.redact

def verbatims : Operand → List Text
  | value v => v.verbatims
  | criterion c => c.verbatims

/-- What the literals of an operand mean that is listed with a field. -/
def contents (field : Text) : Operand → List Text
  | value v => v.contents
  | criterion c => c.contents (some field)

@[simp] theorem verbatims_redact (operand : Operand) :
    operand.redact.verbatims = operand.verbatims := by
  cases operand <;> simp [redact, verbatims]

end Operand

/-! ## Conditions -/

namespace Condition

mutual

/-- The condition with the texts in it made empty. -/
def redact : Condition → Condition
  | sql text => sql text
  | criterion c => criterion c.redact
  | all items => all (redactItems items)
  | any arms => any (redactItems arms)
  | fields entries => fields (entries.map fun (field, operand) => (field, operand.redact))

def redactItems : List Condition → List Condition
  | [] => []
  | item :: rest => redact item :: redactItems rest

end

mutual

/-- What of a condition is written without quoting. -/
def verbatims : Condition → List Text
  | sql text => [text]
  | criterion c => c.verbatims
  | all items => verbatimsOfItems items
  | any arms => verbatimsOfItems arms
  | fields entries => entries.flatMap fun (field, operand) => field :: operand.verbatims

def verbatimsOfItems : List Condition → List Text
  | [] => []
  | item :: rest => verbatims item ++ verbatimsOfItems rest

end

mutual

/-- What the literals of a condition mean. -/
def contents : Condition → List Text
  | sql _ => []
  | criterion c => c.contents none
  | all items => contentsOfItems items
  | any arms => contentsOfItems arms
  | fields entries => entries.flatMap fun (field, operand) => operand.contents field

def contentsOfItems : List Condition → List Text
  | [] => []
  | item :: rest => contents item ++ contentsOfItems rest

end

mutual

@[simp] theorem verbatims_redact : ∀ c : Condition, c.redact.verbatims = c.verbatims
  | sql _ => rfl
  | criterion c => c.verbatims_redact
  | all items => verbatimsOfItems_redactItems items
  | any arms => verbatimsOfItems_redactItems arms
  | fields entries => by simp [redact, verbatims, List.flatMap_map]

theorem verbatimsOfItems_redactItems : ∀ items : List Condition,
    verbatimsOfItems (redactItems items) = verbatimsOfItems items
  | [] => rfl
  | item :: rest => by
    rw [redactItems, verbatimsOfItems, verbatimsOfItems, verbatims_redact item,
      verbatimsOfItems_redactItems rest]

end

end Condition

/-! ## Payloads -/

namespace Row

def redact (row : Row) : Row := row.map fun (field, v) => (field, v.redact)

def verbatims (row : Row) : List Text := row.flatMap fun (field, v) => field :: v.verbatims

@[simp] theorem verbatims_redact (row : Row) :
    Row.verbatims (Row.redact row) = Row.verbatims row := by
  simp [redact, verbatims, List.flatMap_map]

end Row

namespace InsertPayload

def redact : InsertPayload → InsertPayload
  | row entries => row (Row.redact entries)
  | rows list => rows (list.map Row.redact)
  | tuple cells => tuple (cells.map Value.redact)
  | tuples list => tuples (list.map (·.map Value.redact))

def verbatims : InsertPayload → List Text
  | row entries => Row.verbatims entries
  | rows list => list.flatMap Row.verbatims
  | tuple cells => cells.flatMap Value.verbatims
  | tuples list => list.flatMap (·.flatMap Value.verbatims)

/-- What the literals of rows with named fields mean: each row has a cell under every
field, and a cell that it lacks has no literal. -/
def namedContents (rows : List Row) : List Text :=
  rows.flatMap fun row =>
    (fieldList rows).flatMap fun field => ((row.lookup field).map Value.contents).getD []

def contents : InsertPayload → List Text
  | row entries => namedContents [entries]
  | rows list => namedContents list
  | tuple cells => cells.flatMap Value.contents
  | tuples list => list.flatMap (·.flatMap Value.contents)

@[simp] theorem verbatims_redact (payload : InsertPayload) :
    payload.redact.verbatims = payload.verbatims := by
  cases payload <;> simp [redact, verbatims, List.flatMap_map]

end InsertPayload

namespace Assignments

mutual

/-- The assignments with the texts in them made empty. -/
def redact : Assignments → Assignments
  | verbatim text => verbatim text
  | fields entries => fields (Row.redact entries)
  | list items => list (redactItems items)

def redactItems : List Assignments → List Assignments
  | [] => []
  | item :: rest => redact item :: redactItems rest

end

mutual

/-- What of assignments is written without quoting. -/
def verbatims : Assignments → List Text
  | verbatim text => [text]
  | fields entries => Row.verbatims entries
  | list items => verbatimsOfItems items

def verbatimsOfItems : List Assignments → List Text
  | [] => []
  | item :: rest => verbatims item ++ verbatimsOfItems rest

end

mutual

@[simp] theorem verbatims_redact : ∀ a : Assignments, a.redact.verbatims = a.verbatims
  | verbatim _ => rfl
  | fields entries => Row.verbatims_redact entries
  | list items => verbatimsOfItems_redactItems items

theorem verbatimsOfItems_redactItems : ∀ items : List Assignments,
    verbatimsOfItems (redactItems items) = verbatimsOfItems items
  | [] => rfl
  | item :: rest => by
    rw [redactItems, verbatimsOfItems, verbatimsOfItems, verbatims_redact item,
      verbatimsOfItems_redactItems rest]

end

theorem redactItems_eq_map (items : List Assignments) : redactItems items = items.map redact := by
  induction items with
  | nil => rfl
  | cons item rest ih => simp [redactItems, ih]

theorem verbatimsOfItems_eq_flatMap (items : List Assignments) :
    verbatimsOfItems items = items.flatMap verbatims := by
  induction items with
  | nil => rfl
  | cons item rest ih => simp [verbatimsOfItems, ih]

/-- What the literals of assignments mean that are no list. -/
def partContents : Assignments → List Text
  | fields entries => entries.flatMap fun (_, v) => v.contents
  | verbatim _ | list _ => []

def contents : Assignments → List Text
  | list items => items.flatMap partContents
  | single => partContents single

end Assignments

/-! ## Clauses without operands -/

def TableRef.verbatims : TableRef → List Text
  | named name => [name]
  | aliased name shortName => [name, shortName]

def Join.verbatims (j : Join) : List Text :=
  j.table.toList.flatMap TableRef.verbatims ++
    j.on.toList.flatMap fun (left, right) => [left, right]

def ColumnTarget.verbatims : ColumnTarget → List Text
  | renamed name => [name]
  | columns names => names

namespace Projection

mutual

/-- What a projection is written with. -/
def verbatims : Projection → List Text
  | verbatim text => [text]
  | list items => verbatimsOfItems items
  | keyed entries => entries.flatMap fun (key, target) => key :: target.verbatims

def verbatimsOfItems : List Projection → List Text
  | [] => []
  | item :: rest => verbatims item ++ verbatimsOfItems rest

end

end Projection

def GroupBy.verbatims : GroupBy → List Text
  | verbatim text => [text]
  | names list => list

/-- The fields or the text of an order; a direction is one of two words and no text. -/
def OrderBy.verbatims : OrderBy → List Text
  | verbatim text => [text]
  | names list => list
  | directed entries => entries.map Prod.fst

def RowLimit.verbatims : RowLimit → List Text
  | verbatim text => [text]
  | count _ | sequence _ | paged _ _ => []

/-! ## Statements -/

/-- What an optional part is written with does not change by redaction. -/
theorem flatMap_redact {α : Type} {redact : α → α} {verbatims : α → List Text}
    (h : ∀ x, verbatims (redact x) = verbatims x) (part : Option α) :
    (part.map redact).toList.flatMap verbatims = part.toList.flatMap verbatims := by
  cases part <;> simp [h]

namespace SelectQuery

def redact (q : SelectQuery) : SelectQuery :=
  { q with filter := q.filter.map Condition.redact, having := q.having.map Condition.redact }

def verbatims (q : SelectQuery) : List Text :=
  q.table.toList.flatMap TableRef.verbatims ++ q.joins.flatMap Join.verbatims ++
    q.fields.toList.flatMap Projection.verbatims ++ q.filter.toList.flatMap Condition.verbatims ++
    q.groupBy.toList.flatMap GroupBy.verbatims ++ q.having.toList.flatMap Condition.verbatims ++
    q.orderBy.toList.flatMap OrderBy.verbatims ++ q.limit.toList.flatMap RowLimit.verbatims

/-- The condition on groups is written only behind a grouping. -/
def contents (q : SelectQuery) : List Text :=
  q.filter.toList.flatMap Condition.contents ++
    if (GroupBy.clause q.groupBy).isEmpty then [] else q.having.toList.flatMap Condition.contents

@[simp] theorem verbatims_redact (q : SelectQuery) : q.redact.verbatims = q.verbatims := by
  simp [redact, verbatims, flatMap_redact]

end SelectQuery

namespace UnionQuery

def redact (u : UnionQuery) : UnionQuery := { u with selects := u.selects.map SelectQuery.redact }

def verbatims (u : UnionQuery) : List Text :=
  u.selects.flatMap SelectQuery.verbatims ++ u.orderBy.toList.flatMap OrderBy.verbatims

def contents (u : UnionQuery) : List Text := u.selects.flatMap SelectQuery.contents

@[simp] theorem verbatims_redact (u : UnionQuery) : u.redact.verbatims = u.verbatims := by
  simp [redact, verbatims, List.flatMap_map]

end UnionQuery

namespace InsertCommand

def redact (c : InsertCommand) : InsertCommand :=
  { c with payload := c.payload.map InsertPayload.redact }

def verbatims (c : InsertCommand) : List Text :=
  c.table.toList.flatMap TableRef.verbatims ++ c.payload.toList.flatMap InsertPayload.verbatims ++
    c.fields.toList ++ c.values.toList

def contents (c : InsertCommand) : List Text := c.payload.toList.flatMap InsertPayload.contents

@[simp] theorem verbatims_redact (c : InsertCommand) : c.redact.verbatims = c.verbatims := by
  simp [redact, verbatims, flatMap_redact]

end InsertCommand

namespace UpdateCommand

def redact (c : UpdateCommand) : UpdateCommand :=
  { c with
    assignments := c.assignments.map Assignments.redact
    filter := c.filter.map Condition.redact }

def verbatims (c : UpdateCommand) : List Text :=
  c.table.toList.flatMap TableRef.verbatims ++ c.assignments.toList.flatMap Assignments.verbatims ++
    c.filter.toList.flatMap Condition.verbatims ++ c.orderBy.toList.flatMap OrderBy.verbatims ++
    c.limit.toList.flatMap RowLimit.verbatims

def contents (c : UpdateCommand) : List Text :=
  c.assignments.toList.flatMap Assignments.contents ++ c.filter.toList.flatMap Condition.contents

@[simp] theorem verbatims_redact (c : UpdateCommand) : c.redact.verbatims = c.verbatims := by
  simp [redact, verbatims, flatMap_redact]

end UpdateCommand

namespace DeleteCommand

def redact (c : DeleteCommand) : DeleteCommand :=
  { c with filter := c.filter.map Condition.redact }

def verbatims (c : DeleteCommand) : List Text :=
  c.table.toList.flatMap TableRef.verbatims ++ c.filter.toList.flatMap Condition.verbatims ++
    c.orderBy.toList.flatMap OrderBy.verbatims ++ c.limit.toList.flatMap RowLimit.verbatims

def contents (c : DeleteCommand) : List Text := c.filter.toList.flatMap Condition.contents

@[simp] theorem verbatims_redact (c : DeleteCommand) : c.redact.verbatims = c.verbatims := by
  simp [redact, verbatims, flatMap_redact]

end DeleteCommand

namespace Statement

/-- The statement with every text operand in it made empty. -/
def redact : Statement → Statement
  | select q => select q.redact
  | union u => union u.redact
  | insert c => insert c.redact
  | update c => update c.redact
  | delete c => delete c.redact

/-- All that a statement is written with but its operands and the words of SQL. -/
def verbatims : Statement → List Text
  | select q => q.verbatims
  | union u => u.verbatims
  | insert c => c.verbatims
  | update c => c.verbatims
  | delete c => c.verbatims

/-- What the literals of a statement mean, from left to right. -/
def contents : Statement → List Text
  | select q => q.contents
  | union u => u.contents
  | insert c => c.contents
  | update c => c.contents
  | delete c => c.contents

theorem verbatims_redact (s : Statement) : s.redact.verbatims = s.verbatims := by
  cases s <;> simp [redact, verbatims]

end Statement

end SqlCompose
