import SqlCompose.Condition.Basic

/-!
# Grouping and order

`GROUP BY`, `HAVING` and `ORDER BY`.  Names are written without their outer blanks, and
blank names are left out.  A `HAVING` stands only behind a `GROUP BY`.
-/

namespace SqlCompose

/-- Names without their outer blanks, with commas between. -/
def joinNames (names : List Text) : Text :=
  Text.joinNonempty ", " (names.map Text.trim)

/-- What rows are grouped by. -/
inductive GroupBy where
  | verbatim (text : Text)
  | names (list : List Text)
  deriving DecidableEq

namespace GroupBy

/-- The body of the clause. -/
def body : GroupBy → Text
  | verbatim text => text.trim
  | names list => joinNames list

/-- The clause, or nothing. -/
def clause (g : Option GroupBy) : Text := Text.clause "GROUP BY" ((g.map body).getD [])

/-- The condition on groups, or nothing; without a grouping there are no groups. -/
def havingClause (g : Option GroupBy) (having : Option Condition) : Text :=
  if (clause g).isEmpty then [] else Condition.clause "HAVING" having

/-- The grouping with the condition on its groups. -/
def clauseWithHaving (g : Option GroupBy) (having : Option Condition) : Text :=
  Text.spaced [clause g, havingClause g having]

end GroupBy

/-- What rows are sorted by. -/
inductive OrderBy where
  | verbatim (text : Text)
  | names (list : List Text)
  /-- Fields, each with its direction. -/
  | directed (entries : List (Text × Text))
  deriving DecidableEq

namespace OrderBy

/-- The direction that a word names; any word but `DESC`, in either case, is ascending. -/
def direction (word : Text) : Text :=
  if word.trim.upper = lit "DESC" then "DESC" else "ASC"

/-- A field with its direction; nothing if the field is blank. -/
def entry (field word : Text) : Text :=
  if field.blank then [] else field.trim ++ ' ' :: direction word

/-- The body of the clause. -/
def body : OrderBy → Text
  | verbatim text => text.trim
  | names list => joinNames list
  | directed entries => Text.joinNonempty ", " (entries.map fun (field, word) => entry field word)

/-- The clause, or nothing. -/
def clause (o : Option OrderBy) : Text := Text.clause "ORDER BY" ((o.map body).getD [])

end OrderBy

end SqlCompose
