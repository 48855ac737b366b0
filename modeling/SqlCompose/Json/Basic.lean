import SqlCompose.Binary64.Layout
import SqlCompose.Json.Node

/-!
# JSON values

A `Json` is what a JSON text means: numbers in range, strings of characters, and objects
with their keys in order and each key once.  `render` writes it without blanks.
-/

namespace SqlCompose

/-- A JSON value. -/
inductive Json where
  | null
  | bool (b : Bool)
  /-- An integer of a 64-bit word, signed or unsigned. -/
  | int (n : Int)
  | float (x : Binary64)
  | text (t : Text)
  | array (items : List Json)
  | object (members : List (Text × Json))

namespace Json

/-- Adds a member to members in order of their keys; one with the same key is replaced.
Keys are compared by code points. -/
def insertMember (key : Text) (value : Json) : List (Text × Json) → List (Text × Json)
  | [] => [(key, value)]
  | (k, v) :: rest =>
    if key = k then (key, value) :: rest
    else if key < k then (key, value) :: (k, v) :: rest
    else (k, v) :: insertMember key value rest

/-- The number of a literal: an integer where it is one that fits, else a float. -/
def ofNumeral? (n : Numeral) : Option Json :=
  match n.toInt? with
  | some i => some (int i)
  | none => n.toBinary64?.map float

mutual

/-- The value of a syntax tree, if its numbers are in range and its strings spell
characters. -/
def ofNode? : Node → Option Json
  | .null => some null
  | .bool b => some (bool b)
  | .number n => ofNumeral? n
  | .text pieces => (spell pieces).map text
  | .array items => (itemsOfNodes? items).map array
  | .object members => (membersOfNodes? [] members).map object

/-- The values of the items of an array. -/
def itemsOfNodes? : List Node → Option (List Json)
  | [] => some []
  | node :: rest => do
    let item ← ofNode? node
    let items ← itemsOfNodes? rest
    return item :: items

/-- The members of an object, added one after the other to those read before. -/
def membersOfNodes? (before : List (Text × Json)) :
    List (List Piece × Node) → Option (List (Text × Json))
  | [] => some before
  | (pieces, node) :: rest => do
    let key ← spell pieces
    let value ← ofNode? node
    membersOfNodes? (insertMember key value before) rest

end

/-- The value of a JSON text. -/
def parse? (t : Text) : Option Json := Node.parse? t >>= ofNode?

/-- A character inside a string: quotes, backslashes and the characters below U+0020 are
escaped. -/
def escapePiece (c : Char) : Text :=
  match c with
  | '"' => ['\\', '"']
  | '\\' => ['\\', '\\']
  | '\x08' => ['\\', 'b']
  | '\x0c' => ['\\', 'f']
  | '\n' => ['\\', 'n']
  | '\r' => ['\\', 'r']
  | '\t' => ['\\', 't']
  | c => if c.toNat < 0x20 then '\\' :: 'u' :: Text.fixedDigits 16 4 c.toNat else [c]

/-- A string with its quotes. -/
def renderText (t : Text) : Text := '"' :: t.flatMap escapePiece ++ ['"']

/-- A number; JSON has no text for the other data, which no JSON text denotes. -/
def renderFloat (x : Binary64) : Text :=
  match x.view with
  | .finite negative m e => Binary64.Layout.json.write negative m e
  | _ => "null"

mutual

/-- A value without blanks. -/
def render : Json → Text
  | null => "null"
  | bool b => if b then "true" else "false"
  | int n => Text.ofInt n
  | float x => renderFloat x
  | text t => renderText t
  | array items => '[' :: Text.joinWith "," (renderItems items) ++ [']']
  | object members => '{' :: Text.joinWith "," (renderMembers members) ++ ['}']

/-- The items of an array, each without blanks. -/
def renderItems : List Json → List Text
  | [] => []
  | item :: rest => render item :: renderItems rest

/-- The members of an object, each with a colon behind its key. -/
def renderMembers : List (Text × Json) → List Text
  | [] => []
  | (key, value) :: rest => (renderText key ++ ':' :: render value) :: renderMembers rest

end

end Json

end SqlCompose
