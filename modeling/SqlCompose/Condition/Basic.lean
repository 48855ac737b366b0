import SqlCompose.Predicate

/-!
# Conditions

A `Condition` is the tree behind a `WHERE` or `HAVING`: verbatim SQL, criteria, lists
whose members all hold, disjunctions, and operands listed by field.

Compiling goes through the elements of a tree (`parts`), a flat list of non-empty texts.
An element that starts with the mark `OR ` continues the text before it as a further
alternative; any other is a further requirement.  A disjunction with one arm is written
as a marked element, one with more arms as a single element between brackets, so that
only the former can widen what stands before it.
-/

namespace SqlCompose

/-- What a field is listed with: an operand that it has to equal, or a criterion. -/
inductive Operand where
  | value (v : Value)
  | criterion (c : Criterion)

namespace Operand

/-- Equality of operands. -/
def equal : Operand → Operand → Bool
  | value v, value w => v == w
  | criterion c, criterion d => c == d
  | _, _ => false

instance : BEq Operand := ⟨equal⟩

/-- A field with its operand as SQL.  A list asks for one of its members.  Raw SQL that
already starts with the field stands alone. -/
def render (field : Text) : Operand → Text
  | criterion c => c.render (some field)
  | value (.list items) => field ++ " IN (" ++ (Value.list items).quote ++ ")"
  | value (.raw sql) =>
    if (field ++ [' ']).isPrefixOf sql then sql else field ++ " = " ++ sql
  | value v => field ++ " = " ++ v.quote

end Operand

/-- A condition of a statement. -/
inductive Condition where
  /-- Verbatim SQL. -/
  | sql (text : Text)
  /-- A criterion that nothing around it offers a field. -/
  | criterion (c : Criterion)
  /-- All members, in order. -/
  | all (items : List Condition)
  /-- One of the arms. -/
  | any (arms : List Condition)
  /-- Fields with their operands, in order. -/
  | fields (entries : List (Text × Operand))

namespace Condition

/-- The mark of an element that is an alternative to what stands before it. -/
def mark : Text := "OR "

/-- Whether an element is marked as an alternative. -/
def marked (part : Text) : Bool := mark.isPrefixOf part

/-- What stands between an element and those before it. -/
def joiner (part : Text) (unmarked : Text) : Text :=
  if marked part then [' '] else unmarked

/-- Elements behind others: each with what joins it to those before. -/
def chain (unmarked : Text) (parts : List Text) : Text :=
  parts.flatMap fun part => joiner part unmarked ++ part

/-- The elements of a condition as one expression.  A mark at the very beginning has
nothing to be an alternative to, and is left out. -/
def conjunction : List Text → Text
  | [] => []
  | first :: rest =>
    let joined := first ++ chain " AND " rest
    (mark.isPrefixOf? joined).getD joined

/-- The arms of a disjunction, of which none is empty, as one element. -/
def disjunction : List Text → Text
  | [] => []
  | [arm] => mark ++ arm
  | first :: rest => Text.bracketed (first ++ chain " OR " rest)

/-- A text as a list of elements: itself, unless it is empty. -/
def element (part : Text) : List Text := if part.isEmpty then [] else [part]

mutual

/-- The elements of a condition. -/
def parts : Condition → List Text
  | sql text => element text.trim
  | criterion c => element (c.render none)
  | all items => partsOfAll items
  | any arms => element (disjunction (Text.nonempty (armTexts arms))).trim
  | fields entries => Text.nonempty (entries.map fun (field, operand) => operand.render field)

/-- The elements of all members, in order. -/
def partsOfAll : List Condition → List Text
  | [] => []
  | item :: rest => parts item ++ partsOfAll rest

/-- Each arm of a disjunction as one expression. -/
def armTexts : List Condition → List Text
  | [] => []
  | arm :: rest => conjunction (parts arm) :: armTexts rest

end

/-- The condition as one expression; nothing if none of it says anything. -/
def render (c : Condition) : Text := conjunction c.parts

/-- The text of a disjunction. -/
def disjunctionText (arms : List Condition) : Text :=
  disjunction (Text.nonempty (armTexts arms))

/-- The condition behind a keyword, or nothing. -/
def clause (keyword : Text) (c : Option Condition) : Text :=
  Text.clause keyword ((c.map render).getD [])

/-- The rows that a statement is about. -/
def whereClause (c : Option Condition) : Text := clause "WHERE" c

theorem partsOfAll_eq_flatMap (items : List Condition) :
    partsOfAll items = items.flatMap parts := by
  induction items with
  | nil => rfl
  | cons item rest ih => simp [partsOfAll, ih]

theorem armTexts_eq_map (arms : List Condition) : armTexts arms = arms.map render := by
  induction arms with
  | nil => rfl
  | cons arm rest ih => simp [armTexts, render, ih]

/-! ## Equality -/

mutual

/-- Equality of conditions.  A disjunction is the text that it writes. -/
def equal : Condition → Condition → Bool
  | sql s, sql t => s == t
  | sql s, any arms => s == disjunctionText arms
  | any arms, sql t => disjunctionText arms == t
  | any arms, any arms' => disjunctionText arms == disjunctionText arms'
  | criterion c, criterion d => c == d
  | all items, all items' => equalItems items items'
  | fields entries, fields entries' => entries == entries'
  | _, _ => false

/-- Equality of lists of conditions, member by member. -/
def equalItems : List Condition → List Condition → Bool
  | [], [] => true
  | a :: as, b :: bs => equal a b && equalItems as bs
  | _, _ => false

end

instance : BEq Condition := ⟨equal⟩

end Condition

end SqlCompose
