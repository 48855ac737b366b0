import SqlCompose.Value.Quote

/-!
# Predicates

A `Test` says what is asked of a field, a `Predicate` is a test or its negation, and a
`Criterion` is a predicate that may already know its field.  A criterion without a usable
field is written as nothing; the test for rows of a subquery needs no field at all.
-/

namespace SqlCompose

/-- What is asked of a field. -/
inductive Test where
  /-- The field stands in a relation to an operand, `f op v`. -/
  | compare (op : Text) (operand : Value)
  | like (pattern : Value)
  /-- The field is among the operands, `f IN (...)`. -/
  | among (operands : Value)
  | isNull
  | between (low high : Value)
  /-- A subquery has rows, `EXISTS ...`. -/
  | hasRows (subquery : Text)

namespace Test

/-- Whether the test is about a field. -/
def needsField : Test → Bool
  | hasRows _ => false
  | _ => true

/-- Equality of tests. -/
def equal : Test → Test → Bool
  | compare op v, compare op' v' => op == op' && v == v'
  | like v, like v' => v == v'
  | among v, among v' => v == v'
  | isNull, isNull => true
  | between v w, between v' w' => v == v' && w == w'
  | hasRows sql, hasRows sql' => sql == sql'
  | _, _ => false

instance : BEq Test := ⟨equal⟩

end Test

/-- A test or its negation. -/
structure Predicate where
  negated : Bool
  test : Test

namespace Predicate

instance : BEq Predicate := ⟨fun p q => p.negated == q.negated && p.test == q.test⟩

/-- A word of a predicate that stands only in its negation. -/
def notWord (negated : Bool) : Text := if negated then "NOT " else []

/-- The predicate about a field, as SQL.  The negation of a comparison stands in front,
the others have theirs inside. -/
def render (p : Predicate) (field : Text) : Text :=
  let no := notWord p.negated
  match p.test with
  | .compare op v => no ++ field ++ ' ' :: op ++ ' ' :: v.quote
  | .like v => field ++ ' ' :: no ++ "LIKE " ++ v.quote
  | .among v => field ++ ' ' :: no ++ "IN (" ++ v.quote ++ ")"
  | .isNull => field ++ " IS " ++ no ++ "NULL"
  | .between v w => field ++ ' ' :: no ++ "BETWEEN " ++ v.quote ++ " AND " ++ w.quote
  | .hasRows sql => no ++ "EXISTS " ++ sql

end Predicate

/-- A predicate with the field that it is bound to, if any. -/
structure Criterion where
  field : Option Text
  predicate : Predicate

namespace Criterion

instance : BEq Criterion := ⟨fun c d => c.field == d.field && c.predicate == d.predicate⟩

/-- A predicate that is not bound to a field. -/
def unbound (negated : Bool) (test : Test) : Criterion := ⟨none, ⟨negated, test⟩⟩

/-- The same predicate, bound to a field. -/
def on (c : Criterion) (field : Text) : Criterion := { c with field := some field }

/-- The criterion as SQL, where `context` is the field that its surroundings offer.  The
bound field comes first; a blank field or none at all leaves nothing. -/
def render (c : Criterion) (context : Option Text) : Text :=
  if c.predicate.test.needsField then
    match (c.field.or context).map Text.trim with
    | some (char :: rest) => c.predicate.render (char :: rest)
    | _ => []
  else c.predicate.render []

end Criterion

end SqlCompose
