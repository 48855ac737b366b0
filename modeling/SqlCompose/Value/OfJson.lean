import SqlCompose.Json.Basic
import SqlCompose.Value.Basic

/-!
# Operands from JSON

A JSON value as an operand: arrays become lists, and an object becomes the text of the
object.  An integer above the signed 64-bit range stands as its decimal digits.
-/

namespace SqlCompose.Value

/-- An integer of a 64-bit word, signed or unsigned, as an operand. -/
def ofWord (n : Int) : Value :=
  if n < 0 then int (Int64.ofInt n) else ofUInt64 (UInt64.ofNat n.toNat)

mutual

/-- The operand of a JSON value. -/
def ofJson : Json → Value
  | .null => null
  | .bool b => bool b
  | .int n => ofWord n
  | .float x => float x
  | .text t => text t
  | .array items => list (ofJsonItems items)
  | .object members => text (Json.object members).render

/-- The operands of the items of an array. -/
def ofJsonItems : List Json → List Value
  | [] => []
  | item :: rest => ofJson item :: ofJsonItems rest

end

end SqlCompose.Value
