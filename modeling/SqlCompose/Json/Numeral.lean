import SqlCompose.Binary64.Rounding
import SqlCompose.Text.Digits

/-!
# JSON numbers

A number literal is read into its parts first.  A literal without fraction and exponent
is an integer when it lies in the signed or the unsigned 64-bit range; every other
literal is a binary64 number, and so is `-0`.

The binary64 number is found in two steps.  The digits make an integer as long as it fits
an unsigned 64-bit word; later digits before the point only count as powers of ten, and
behind the point they are left out.  That integer is converted and then multiplied or
divided by the power of ten, each step rounding once.  A result beyond the greatest
number is refused.
-/

namespace SqlCompose.Json

/-- The parts of a number literal. -/
structure Numeral where
  negative : Bool
  /-- The digits before the point. -/
  whole : Text
  /-- The digits behind the point; none if there is no point. -/
  fraction : Text
  /-- The exponent, if one is written. -/
  exponent : Option Int

namespace Numeral

/-- The digits at the start of a text, at least one, and what follows. -/
def digits? (t : Text) : Option (Text × Text) :=
  let digits := t.takeWhile Char.isDigit
  if digits.isEmpty then none else some (digits, t.dropWhile Char.isDigit)

/-- A sign at the start of an exponent, and what follows. -/
def exponentSign : Text → Bool × Text
  | '-' :: rest => (true, rest)
  | '+' :: rest => (false, rest)
  | rest => (false, rest)

/-- The fraction behind the whole digits, and what follows. -/
def fraction? : Text → Option (Text × Text)
  | '.' :: rest => digits? rest
  | rest => some ([], rest)

/-- The exponent that takes up the rest of a literal. -/
def exponent? : Text → Option (Option Int)
  | [] => some none
  | c :: rest =>
    if c = 'e' ∨ c = 'E' then do
      let (negative, rest) := exponentSign rest
      let (digits, rest) ← digits? rest
      guard rest.isEmpty
      let magnitude : Int := Text.decimal digits
      return some (if negative then -magnitude else magnitude)
    else none

/-- The parts of a literal, if it is a JSON number: no sign but a minus, no superfluous
leading zero, and digits on both sides of a point. -/
def parse? (literal : Text) : Option Numeral := do
  let (negative, rest) := match literal with
    | '-' :: rest => (true, rest)
    | rest => (false, rest)
  let (whole, rest) ← digits? rest
  guard (whole.length = 1 ∨ whole.head? ≠ some '0')
  let (fraction, rest) ← fraction? rest
  let exponent ← exponent? rest
  return ⟨negative, whole, fraction, exponent⟩

/-- The greatest exponent that a signed 32-bit word holds. -/
def exponentMax : Nat := Nat.pow 2 31 - 1

/-- Appends digits to a number as long as it fits a word; gives the digits left over. -/
def appendFitting (n : Nat) : Text → Nat × Text
  | [] => (n, [])
  | c :: rest =>
    let longer := 10 * n + (c.toNat - '0'.toNat)
    if longer < UInt64.size then appendFitting longer rest else (n, c :: rest)

/-- A power of ten as a datum. -/
def powerOfTen (k : Nat) : Binary64 := Binary64.nearest false (Nat.pow 10 k) 1

/-- The product of a datum with a power of ten. -/
def timesPower (x : Binary64) (k : Nat) : Binary64 :=
  match (powerOfTen k).magnitude? with
  | some (num, den) => x.scale num den
  | none => x

/-- The quotient of a datum by a power of ten. -/
def overPower (x : Binary64) (k : Nat) : Binary64 :=
  match (powerOfTen k).magnitude? with
  | some (num, den) => x.scale den num
  | none => x

/-- Whether a datum is one of the zeros. -/
def isZero (x : Binary64) : Bool :=
  match x.view with
  | .finite _ m _ => m == 0
  | _ => false

/-- Whether a datum is an infinity. -/
def isInfinite (x : Binary64) : Bool :=
  match x.view with
  | .infinite _ => true
  | _ => false

/-- A datum times ten to a power that is not positive, dividing by at most `10 ^ 308` at
a time. -/
def scaleDown (x : Binary64) (e : Int) : Binary64 :=
  if e < -308 then
    if isZero x then x else scaleDown (overPower x 308) (e + 308)
  else overPower x e.natAbs
termination_by e.natAbs

/-- A datum times a power of ten, unless that is beyond every number. -/
def scaleBy (x : Binary64) (e : Int) : Option Binary64 :=
  if e < 0 then some (scaleDown x e)
  else if 308 < e then if isZero x then some x else none
  else
    let y := timesPower x e.toNat
    if isInfinite y then none else some y

/-- The magnitude of a literal as a datum. -/
def magnitude? (n : Numeral) : Option Binary64 :=
  let (significand, unread) := appendFitting 0 n.whole
  let (significand, left) := appendFitting significand n.fraction
  let scale : Int := unread.length - (n.fraction.length - left.length : Nat)
  let written := n.exponent.getD 0
  let x := Binary64.nearest false significand 1
  if exponentMax < written.natAbs then
    if significand ≠ 0 ∧ 0 < written then none else some (Binary64.nearest false 0 1)
  else scaleBy x (scale + written)

/-- The binary64 number that a literal denotes. -/
def toBinary64? (n : Numeral) : Option Binary64 :=
  n.magnitude?.map fun x => if n.negative then x.neg else x

/-- The integer that a literal denotes, when it has neither fraction nor exponent and
fits a 64-bit word, signed or unsigned.  Minus zero is no integer. -/
def toInt? (n : Numeral) : Option Int :=
  if n.fraction.isEmpty && n.exponent.isNone then
    let magnitude := Text.decimal n.whole
    if n.negative then
      if magnitude ≠ 0 ∧ magnitude ≤ Nat.pow 2 63 then some (-(magnitude : Int)) else none
    else if magnitude < UInt64.size then some magnitude else none
  else none

end Numeral

end SqlCompose.Json
