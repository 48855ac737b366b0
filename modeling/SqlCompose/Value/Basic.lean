import SqlCompose.Binary64.Basic
import SqlCompose.Calendar

/-!
# Operands

A `Value` is what stands in a statement where SQL expects a literal: the right-hand side
of a comparison, a member of an `IN` list, a cell of an inserted row.  `raw` is the one
exception, SQL text that is taken as it is.

Equality is the one of the data: NaN differs from itself, and the two zeros are equal.
-/

namespace SqlCompose

/-- An operand of a statement. -/
inductive Value where
  | null
  | bool (b : Bool)
  | int (n : Int64)
  | float (x : Binary64)
  | text (t : Text)
  | bytes (data : List UInt8)
  | date (d : Date)
  | timestamp (t : Timestamp)
  /-- A timestamp that is known to be in UTC. -/
  | timestampUtc (t : Timestamp)
  | list (items : List Value)
  /-- SQL text that is inlined without quoting. -/
  | raw (sql : Text)

namespace Value

/-- An unsigned number as an operand.  One above the signed 64-bit range has no integer
operand; its decimal digits stand for it. -/
def ofUInt64 (n : UInt64) : Value :=
  if n.toNat ≤ Int64.maxValue.toInt.toNat then int (Int64.ofNat n.toNat)
  else raw (Text.ofNat n.toNat)

/-- Whether the operand is the null value. -/
def isNull : Value → Bool
  | null => true
  | _ => false

/-- Whether the operand is a list. -/
def isList : Value → Bool
  | list _ => true
  | _ => false

mutual

/-- Equality of operands. -/
def equal : Value → Value → Bool
  | null, null => true
  | bool a, bool b => a == b
  | int a, int b => a == b
  | float a, float b => a == b
  | text a, text b => a == b
  | bytes a, bytes b => a == b
  | date a, date b => a == b
  | timestamp a, timestamp b => a == b
  | timestampUtc a, timestampUtc b => a == b
  | list a, list b => equalItems a b
  | raw a, raw b => a == b
  | _, _ => false

/-- Equality of operand lists, member by member. -/
def equalItems : List Value → List Value → Bool
  | [], [] => true
  | a :: as, b :: bs => equal a b && equalItems as bs
  | _, _ => false

end

instance : BEq Value := ⟨equal⟩

end Value

end SqlCompose
