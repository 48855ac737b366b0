import SqlCompose.Binary64.Basic

/-!
# Rounding to a datum

`nearest` gives the datum closest to a quotient of two natural numbers.  A quotient
halfway between two data goes to the one with an even significand, and one beyond the
greatest finite datum goes to infinity.  Products, quotients and conversions of data are
the exact rational result, rounded once.
-/

namespace SqlCompose.Binary64

/-- The integer nearest to a quotient, a half going to the even neighbour. -/
def roundHalfEven (num den : Nat) : Nat :=
  let q := num / den
  let r := num % den
  if 2 * r < den then q
  else if den < 2 * r then q + 1
  else if q % 2 = 0 then q else q + 1

/-- The numerator and denominator of a quotient measured in units of `2 ^ e`. -/
def inUnits (num den : Nat) (e : Int) : Nat × Nat :=
  (num * Nat.pow 2 (-e).toNat, den * Nat.pow 2 e.toNat)

/-- The exponent with which a quotient has 53 significant bits, or the least one. -/
def fittingExponent (num den : Nat) : Int :=
  let e := (Nat.log2 num : Int) - Nat.log2 den - 52
  let (n, d) := inUnits num den e
  max minExponent (if n / d < leadingBit then e - 1 else e)

/-- The bits of a significand with an exponent.  A significand of `2 ^ 53`, which rounding
up may give, carries into the exponent; past the last exponent stands infinity. -/
def pack (negative : Bool) (significand : Nat) (e : Int) : Binary64 :=
  let magnitude := min ((e - minExponent).toNat * Nat.pow 2 52 + significand) (2047 * Nat.pow 2 52)
  ⟨UInt64.ofNat ((if negative then Nat.pow 2 63 else 0) + magnitude)⟩

/-- The datum nearest to `num / den`, with the given sign. -/
def nearest (negative : Bool) (num den : Nat) : Binary64 :=
  if num = 0 then pack negative 0 minExponent
  else
    let e := fittingExponent num den
    let (n, d) := inUnits num den e
    pack negative (roundHalfEven n d) e

/-- The same number from the 32 bits of a single: sign, 8 exponent bits, 23 fraction bits.
Every single is a binary64 number, so nothing is rounded. -/
def ofSingleBits (bits : UInt32) : Binary64 :=
  let negative := bits.toNat / Nat.pow 2 31 == 1
  let exponentField := bits.toNat / Nat.pow 2 23 % Nat.pow 2 8
  let fraction := bits.toNat % Nat.pow 2 23
  if exponentField = 255 then
    ⟨UInt64.ofNat ((if negative then Nat.pow 2 63 else 0) + 2047 * Nat.pow 2 52 +
      fraction * Nat.pow 2 29)⟩
  else if exponentField = 0 then nearest negative fraction (Nat.pow 2 149)
  else
    nearest negative ((Nat.pow 2 23 + fraction) * Nat.pow 2 exponentField) (Nat.pow 2 150)

/-- The finite datum with its sign turned over; the others stay. -/
def neg (x : Binary64) : Binary64 :=
  match x.view with
  | .finite negative m e => pack (!negative) m e
  | _ => x

/-- A finite datum times the quotient `num / den`, rounded once; the others stay. -/
def scale (x : Binary64) (num den : Nat) : Binary64 :=
  match x.view with
  | .finite negative m e =>
    nearest negative (m * Nat.pow 2 e.toNat * num) (Nat.pow 2 (-e).toNat * den)
  | _ => x

/-- The magnitude of a finite datum as numerator and denominator. -/
def magnitude? (x : Binary64) : Option (Nat × Nat) :=
  match x.view with
  | .finite _ m e => some (m * Nat.pow 2 e.toNat, Nat.pow 2 (-e).toNat)
  | _ => none

end SqlCompose.Binary64
