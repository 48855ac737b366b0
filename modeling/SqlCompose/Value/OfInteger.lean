import SqlCompose.Value.OfJson

/-!
# Operands from integers

An integer comes in one of the types of fixed width, in the type of sizes, or in JSON.
Signed ones and short unsigned ones are a signed 64-bit word already; the others go the way
of `Value.ofUInt64`, which keeps the digits where the word is too short.
-/

namespace SqlCompose

/-- An integer in one of the types that convert to an operand. -/
inductive Integer where
  | int8 (n : Int8)
  | int16 (n : Int16)
  | int32 (n : Int32)
  | int64 (n : Int64)
  | uint16 (n : UInt16)
  | uint32 (n : UInt32)
  | uint64 (n : UInt64)
  | size (n : USize)
  /-- An integer in JSON fits a 64-bit word, signed or unsigned. -/
  | json (n : Int) (lower : Int64.minValue.toInt ≤ n) (upper : n < UInt64.size)

namespace Integer

/-- The number itself. -/
def toInt : Integer → Int
  | int8 n => n.toInt
  | int16 n => n.toInt
  | int32 n => n.toInt
  | int64 n => n.toInt
  | uint16 n => n.toNat
  | uint32 n => n.toNat
  | uint64 n => n.toNat
  | size n => n.toNat
  | json n _ _ => n

/-- The operand that the integer converts to. -/
def operand : Integer → Value
  | int8 n => .int n.toInt64
  | int16 n => .int n.toInt64
  | int32 n => .int n.toInt64
  | int64 n => .int n
  | uint16 n => .int (Int64.ofNat n.toNat)
  | uint32 n => .int (Int64.ofNat n.toNat)
  | uint64 n => .ofUInt64 n
  | size n => .ofUInt64 n.toUInt64
  | json n _ _ => .ofJson (.int n)

end Integer

end SqlCompose
