import SqlCompose.Text.Blank

/-!
# Tables and joins

A statement names its table, with or without an alias, and a `SELECT` may join further
tables to it.  A table reference that cannot be written is the one thing that a statement
can be refused for.

Joins form a chain: the left side of each is the table that the one before it brought in.
A join without a kind, a table or a pair of fields is left out.
-/

namespace SqlCompose

/-- Why a table reference cannot be written. -/
inductive TableError where
  /-- There is no table, or its name is blank. -/
  | invalidName
  /-- A table with an alias whose name or alias is blank. -/
  | missingEntry
  deriving DecidableEq

/-- A table of a statement. -/
inductive TableRef where
  | named (name : Text)
  | aliased (name shortName : Text)
  deriving DecidableEq

namespace TableRef

/-- What columns of the table are qualified with: the alias, if there is one. -/
def displayName : TableRef → Text
  | named name => name.trim
  | aliased _ shortName => shortName.trim

/-- The table as it stands behind `FROM`. -/
def render : TableRef → Except TableError Text
  | named name => if name.blank then .error .invalidName else .ok name.trim
  | aliased name shortName =>
    if name.blank || shortName.blank then .error .missingEntry
    else .ok (name.trim ++ " AS " ++ shortName.trim)

/-- The table as it stands behind `FROM`, where a statement needs one. -/
def renderRequired : Option TableRef → Except TableError Text
  | some table => table.render
  | none => .error .invalidName

/-- Whether the reference is a name, and that name is blank. -/
def unnamed : TableRef → Bool
  | named name => name.blank
  | aliased _ _ => false

end TableRef

/-- The ways of joining. -/
inductive JoinKind where
  | inner
  | left
  | right
  | cross
  deriving DecidableEq

namespace JoinKind

/-- The kind as a word of SQL. -/
def render : JoinKind → Text
  | inner => "INNER"
  | left => "LEFT"
  | right => "RIGHT"
  | cross => "CROSS"

/-- The kind that a word names, in either case; any other word means an inner join. -/
def ofText (word : Text) : JoinKind :=
  let word := word.trim.upper
  if word = lit "LEFT" then left
  else if word = lit "RIGHT" then right
  else if word = lit "CROSS" then cross
  else inner

end JoinKind

/-- A join: its kind, the table that it brings in, and the pair of fields that have to
agree, the first one of the table before it in the chain. -/
structure Join where
  kind : Text := []
  table : Option TableRef := none
  on : Option (Text × Text) := none
  deriving DecidableEq

namespace Join

/-- The table that the join brings into the chain, unless it has none or a blank name. -/
def target (j : Join) : Option TableRef :=
  j.table.filter fun table => !table.unnamed

/-- The join behind a left table; nothing if it is not complete. -/
def render (left : Option TableRef) (j : Join) : Except TableError Text :=
  match left, j.target, j.on with
  | some left, some right, some (leftField, rightField) =>
    if j.kind.blank then .ok []
    else do
      let table ← right.render
      return (JoinKind.ofText j.kind).render ++ " JOIN " ++ table ++ " ON " ++
        left.displayName ++ '.' :: leftField ++ " = " ++ right.displayName ++ '.' :: rightField
  | _, _, _ => .ok []

/-- The joins of a chain that starts with the given table, each as SQL or as nothing. -/
def renderEach (left : Option TableRef) : List Join → Except TableError (List Text)
  | [] => .ok []
  | j :: rest => do
    let sql ← j.render left
    let later ← renderEach (j.target.or left) rest
    return sql :: later

/-- The joins of a chain with spaces between. -/
def renderChain (base : Option TableRef) (joins : List Join) : Except TableError Text := do
  let each ← renderEach base joins
  return Text.spaced each

end Join

end SqlCompose
