import SqlCompose.Json.Numeral
import SqlCompose.Json.Token

/-!
# JSON syntax trees

A `Node` is a JSON text read as far as its grammar goes: brackets match, numbers have the
form of numbers, and strings are lists of pieces.  Whether a number is in range and a
string spells characters is left open, because a reader that skips a value does not ask.

The tree is built from the tokens by a machine with a stack of unfinished arrays and
objects, so reading is recursion on the list of tokens.
-/

namespace SqlCompose.Json

/-- A JSON value as it is written. -/
inductive Node where
  | null
  | bool (b : Bool)
  | number (n : Numeral)
  | text (pieces : List Piece)
  | array (items : List Node)
  | object (members : List (List Piece × Node))

namespace Node

/-- An array or object whose end has not been read, with what it holds latest first. -/
inductive Unfinished where
  | array (items : List Node)
  /-- The members so far, and the key whose value comes next. -/
  | object (members : List (List Piece × Node)) (key : List Piece)

/-- What the next token may be. -/
inductive State where
  /-- A value. -/
  | value (around : List Unfinished)
  /-- The first value of an array, or its end. -/
  | firstItem (around : List Unfinished)
  /-- The first key of an object, or its end. -/
  | firstKey (around : List Unfinished)
  /-- A key. -/
  | key (members : List (List Piece × Node)) (around : List Unfinished)
  /-- The colon behind a key. -/
  | colon (members : List (List Piece × Node)) (key : List Piece) (around : List Unfinished)
  /-- A value has been read; a comma or the end of what is around it. -/
  | after (node : Node) (around : List Unfinished)

/-- The literal names. -/
def ofWord? (letters : Text) : Option Node :=
  if letters = lit "null" then some null
  else if letters = lit "true" then some (bool true)
  else if letters = lit "false" then some (bool false)
  else none

/-- Reads the token with which a value starts. -/
def beginValue (around : List Unfinished) : Token → Option State
  | .openArray => some (.firstItem around)
  | .openObject => some (.firstKey around)
  | .word letters => (ofWord? letters).map (.after · around)
  | .number literal => (Numeral.parse? literal).map fun n => .after (number n) around
  | .text pieces => some (.after (text pieces) around)
  | _ => none

/-- Reads a token behind a complete value. -/
def continueAfter (node : Node) : List Unfinished → Token → Option State
  | .array items :: around, .comma => some (.value (.array (node :: items) :: around))
  | .array items :: around, .closeArray =>
    some (.after (array (node :: items).reverse) around)
  | .object members key :: around, .comma => some (.key ((key, node) :: members) around)
  | .object members key :: around, .closeObject =>
    some (.after (object ((key, node) :: members).reverse) around)
  | _, _ => none

/-- Reads one token. -/
def step : State → Token → Option State
  | .value around, token => beginValue around token
  | .firstItem around, .closeArray => some (.after (array []) around)
  | .firstItem around, token => beginValue (.array [] :: around) token
  | .firstKey around, .closeObject => some (.after (object []) around)
  | .firstKey around, .text key => some (.colon [] key around)
  | .key members around, .text key => some (.colon members key around)
  | .colon members key around, .colon => some (.value (.object members key :: around))
  | .after node around, token => continueAfter node around token
  | _, _ => none

/-- The value that has been read when the tokens are used up. -/
def result? : State → Option Node
  | .after node [] => some node
  | _ => none

/-- The tree of a JSON text, if the text is one value. -/
def parse? (t : Text) : Option Node := do
  let tokens ← tokenize t
  let final ← tokens.foldlM step (.value [])
  result? final

end Node

end SqlCompose.Json
