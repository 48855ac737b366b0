/-!
# Binary64

A 64-bit binary floating-point datum is kept as its bits and read exactly: `view` gives
NaN, an infinity, or a sign with an integer significand and a power of two.  Nothing here
computes with machine floats, so every statement about a datum is one about integers.

Two readings as a whole number are given, one rounding down and one towards zero; both
stop at the ends of the signed 64-bit range.
-/

namespace SqlCompose

/-- A binary floating-point datum of 64 bits: sign, 11 exponent bits, 52 fraction bits. -/
structure Binary64 where
  bits : UInt64

namespace Binary64

/-- What a datum denotes. -/
inductive View where
  | nan
  | infinite (negative : Bool)
  /-- The number `significand * 2 ^ exponent`, below zero when `negative`. -/
  | finite (negative : Bool) (significand : Nat) (exponent : Int)
  deriving DecidableEq

/-- The least exponent: the one of the numbers nearest to zero. -/
def minExponent : Int := -1074

/-- The least significand of a number that is not next to zero. -/
def leadingBit : Nat := Nat.pow 2 52

/-- The exact reading of a datum. -/
def view (x : Binary64) : View :=
  let negative := x.bits.toNat / Nat.pow 2 63 == 1
  let exponentField : Nat := x.bits.toNat / Nat.pow 2 52 % Nat.pow 2 11
  let fraction : Nat := x.bits.toNat % Nat.pow 2 52
  if exponentField = 2047 then
    if fraction = 0 then .infinite negative else .nan
  else if exponentField = 0 then .finite negative fraction minExponent
  else .finite negative (leadingBit + fraction) ((exponentField : Int) - 1075)

/-- Equality of numbers: NaN equals nothing, and the two zeros are equal. -/
def numericallyEqual (x y : Binary64) : Bool :=
  match x.view, y.view with
  | .infinite s, .infinite t => s == t
  | .finite s m e, .finite t n f => (m == 0 && n == 0) || (s == t && m == n && e == f)
  | _, _ => false

instance : BEq Binary64 := ⟨numericallyEqual⟩

/-! ## Whole numbers -/

/-- An integer brought into the signed 64-bit range at its nearer end. -/
def saturate (n : Int) : Int64 :=
  if n < Int64.minValue.toInt then Int64.minValue
  else if Int64.maxValue.toInt < n then Int64.maxValue
  else Int64.ofInt n

/-- The whole number that `round` takes from numerator and denominator, where an infinity
lies beyond every number and NaN counts as zero. -/
def toCount (round : Int → Int → Int) (x : Binary64) : Int64 :=
  match x.view with
  | .nan => 0
  | .infinite negative => if negative then Int64.minValue else Int64.maxValue
  | .finite negative m e =>
    let signed : Int := if negative then -m else m
    saturate (round (signed * Nat.pow 2 e.toNat) (Nat.pow 2 (-e).toNat))

/-- The greatest whole number that is not above the datum, saturated. -/
def floorCount (x : Binary64) : Int64 := x.toCount Int.fdiv

/-- The datum without its fraction, saturated. -/
def truncCount (x : Binary64) : Int64 := x.toCount Int.tdiv

end Binary64

end SqlCompose
