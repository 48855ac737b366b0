import SqlCompose.Binary64.Basic
import SqlCompose.Text.Blank
import SqlCompose.Text.Digits

/-!
# Row limits

`LIMIT`, `TOP` and `DISTINCT`.  A count that is not positive limits nothing, and then no
clause is written.  A `TOP` given as text counts by the whole number at its start.
-/

namespace SqlCompose

/-- How many rows a statement is about. -/
inductive RowLimit where
  | verbatim (text : Text)
  | count (n : Int64)
  /-- A count, or a first row and a count, `LIMIT a, b`. -/
  | sequence (numbers : List Int64)
  /-- A count and a number of rows before it, `LIMIT n OFFSET m`. -/
  | paged (count offset : Int64)
  deriving DecidableEq

/-- A count in its decimal digits. -/
def countText (n : Int64) : Text := Text.ofInt n.toInt

namespace RowLimit

/-- The limit that a binary64 number means: the whole number below it. -/
def ofBinary64 (x : Binary64) : RowLimit := count x.floorCount

/-- The body of the clause, or nothing. -/
def body : RowLimit → Text
  | verbatim text => text.trim
  | count n => if 1 ≤ n then countText n else []
  | sequence (first :: second :: _) =>
    if 0 < first then
      if 0 < second then countText first ++ ", " ++ countText second else countText first
    else []
  | sequence [first] => if 0 < first then countText first else []
  | sequence [] => []
  | paged n offset =>
    if 0 < n then
      if 0 < offset then countText n ++ " OFFSET " ++ countText offset else countText n
    else []

/-- The clause, or nothing. -/
def clause (l : Option RowLimit) : Text := Text.clause "LIMIT" ((l.map body).getD [])

end RowLimit

/-- How many rows come first, as `TOP` counts them. -/
inductive Top where
  | count (n : Int64)
  | text (t : Text)
  deriving DecidableEq

namespace Top

/-- The count that a binary64 number means: the number without its fraction. -/
def ofBinary64 (x : Binary64) : Top := count x.truncCount

/-- The number that the digits at the start of a text denote, if there are digits and the
number is a signed 64-bit one. -/
def leadingDigits (t : Text) : Option Int64 :=
  let digits := t.takeWhile Char.isDigit
  let n := Text.decimal digits
  if digits.isEmpty || Int64.maxValue.toInt < n then none else some (Int64.ofNat n)

/-- The whole number at the start of a text, behind blanks and at most one sign. -/
def leadingInt (t : Text) : Option Int64 :=
  match t.trimStart with
  | '-' :: rest => (leadingDigits rest).map (-·)
  | '+' :: rest => leadingDigits rest
  | rest => leadingDigits rest

/-- The number of rows, if there is one. -/
def rows : Top → Option Int64
  | count n => some n
  | text t => leadingInt t

/-- The clause, or nothing. -/
def clause (t : Option Top) : Text :=
  match t.bind rows with
  | some n => if 0 < n then "TOP " ++ countText n else []
  | none => []

end Top

/-- `DISTINCT`, where it is asked for. -/
def distinctClause (distinct : Bool) : Text := if distinct then "DISTINCT" else []

end SqlCompose
