import SqlCompose.Condition.Basic
import SqlCompose.Proofs.Algebra.Reader
import SqlCompose.Proofs.Reading.Operand

/-!
# What conditions mean

A condition means a disjunction of blocks, each a conjunction of formulas.
`Condition.sequence` lists the formulas of a condition in order, some of them
marked, and `blocksOfSequence` begins a new block before each marked one.  A
disjunction with one arm that says something marks the first formula of this
arm; one with more such arms is a single formula, the blocks of all of them
between brackets.

`Denotes` says which written predicate stands for which formula, and
`Condition.Regular` is the class of conditions that a reader of SQL can take
apart: their atoms are single predicates.
-/

namespace SqlCompose

open Token Phrase

/-! ## Formulas -/

/-- A predicate as it is written, or a disjunction of blocks between brackets. -/
inductive Formula where
  | atom (text : Text)
  | either (blocks : List (List Formula))

/-- A formula in a sequence, which may be marked as an alternative to those before it. -/
structure Element where
  marked : Bool
  formula : Formula

/-- Puts a formula at the front of the first block. -/
def addToBlock (f : Formula) : List (List Formula) → List (List Formula)
  | [] => [[f]]
  | block :: rest => (f :: block) :: rest

/-- The blocks of a sequence: each marked element begins a new one. -/
def blocksOfSequence : List Element → List (List Formula)
  | [] => []
  | e :: rest =>
    if rest.head?.any Element.marked then [e.formula] :: blocksOfSequence rest
    else addToBlock e.formula (blocksOfSequence rest)

/-- Marks the first element of a sequence, whether it is marked already or not. -/
def markFirst : List Element → List Element
  | [] => []
  | e :: rest => { e with marked := true } :: rest

/-- The elements of a disjunction whose arms, of which none is empty, have these sequences. -/
def disjoin : List (List Element) → List Element
  | [] => []
  | [arm] => markFirst arm
  | arms => [⟨false, .either (arms.flatMap blocksOfSequence)⟩]

/-- A predicate of a text that stands for a formula.  What is between the brackets of a
disjunction is read as its blocks. -/
inductive Denotes : Text → Formula → Prop
  | atom (text : Text) : Denotes text (.atom text)
  | either {inside : Text} {blocks : List (List Text)} {formulas : List (List Formula)}
      (hread : readExpression inside = some blocks)
      (h : List.Forall₂ (List.Forall₂ Denotes) blocks formulas) :
      Denotes (Text.bracketed inside) (.either formulas)

namespace Condition

mutual

/-- The formulas of a condition in order. -/
def sequence : Condition → List Element
  | sql text => [⟨false, .atom text.trim⟩]
  | criterion c => [⟨false, .atom (c.render none).trim⟩]
  | all items => sequenceOfAll items
  | any arms => disjoin ((sequences arms).filter fun arm => !arm.isEmpty)
  | fields entries => entries.map fun (field, operand) => ⟨false, .atom (operand.render field).trim⟩

/-- The formulas of all members, in order. -/
def sequenceOfAll : List Condition → List Element
  | [] => []
  | item :: rest => sequence item ++ sequenceOfAll rest

/-- The formulas of each arm. -/
def sequences : List Condition → List (List Element)
  | [] => []
  | arm :: rest => sequence arm :: sequences rest

end

end Condition

/-! ## Regular conditions -/

/-- A text that is one predicate: its literals and brackets are complete, and none of its
words outside of them connects or is a `BETWEEN`. -/
def IsPredicate (t : Text) : Prop :=
  t.blank = false ∧ ∃ ps, readPhrases t = some ps ∧ ∀ ch ∈ chunks ps, ch.isKeyword = false

instance (t : Text) : Decidable (IsPredicate t) :=
  decidable_of_iff (t.blank = false ∧
    ∃ ps ∈ readPhrases t, ∀ ch ∈ chunks ps, ch.isKeyword = false) (by simp [IsPredicate])

/-- A name without quotes that is none of the words that decide how an expression is read. -/
def IsName (t : Text) : Prop :=
  t ≠ [] ∧ (∀ c ∈ t, isWordChar c = true ∧ isBlank c = false) ∧
    Chunk.isKeyword (.word t) = false

instance (t : Text) : Decidable (IsName t) :=
  decidable_of_iff (t ≠ [] ∧ t.all (fun c => isWordChar c && !isBlank c) = true ∧
    Chunk.isKeyword (.word t) = false) (by simp [IsName])

/-- The comparison operators. -/
def comparisonOperators : List Text := ["=", "<>", "!=", "<", "<=", ">", ">="]

/-- A test of a field without raw SQL in it. -/
def Test.Regular : Test → Prop
  | compare op v => op ∈ comparisonOperators ∧ v.RawFree
  | like v => v.RawFree
  | among v => v.RawFree
  | isNull => True
  | between v w => v.RawFree ∧ w.RawFree
  | hasRows _ => False

/-- A test of a field that has a name, be it bound to the field or listed with it. -/
def Criterion.Regular (context : Option Text) (c : Criterion) : Prop :=
  (∃ field, c.field.or context = some field ∧ IsName field) ∧ c.predicate.test.Regular

/-- What a field with a name is listed with. -/
def Operand.Regular (field : Text) : Operand → Prop
  | value v => IsName field ∧ v.RawFree
  | criterion c => c.Regular (some field)

namespace Condition

mutual

/-- A condition whose atoms are single predicates. -/
def Regular : Condition → Prop
  | sql text => IsPredicate text.trim
  | criterion c => c.Regular none
  | all items => RegularItems items
  | any arms => RegularItems arms
  | fields entries => ∀ entry ∈ entries, entry.2.Regular entry.1

/-- Conditions whose atoms are single predicates. -/
def RegularItems : List Condition → Prop
  | [] => True
  | item :: rest => Regular item ∧ RegularItems rest

end

end Condition

end SqlCompose
