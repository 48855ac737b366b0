import SqlCompose.Binary64.Basic
import SqlCompose.Text.Digits

/-!
# Shortest decimal digits

The decimal written for a finite datum has the fewest digits among the decimals that read
back as that datum, and is the nearest of those.  The decimals that read back lie between
the midpoints to the two neighbouring data; a midpoint itself reads back exactly when the
significand is even.

The search runs over grids: with `n` significant digits, the candidates are the two grid
points around the number.  Seventeen digits always suffice.
-/

namespace SqlCompose.Binary64

/-- Which of two equally near decimals is written. -/
inductive Tie where
  | up
  | toEven
  deriving DecidableEq

/-- Significant digits and the place of the point: the number `0.d₁d₂… * 10 ^ point`. -/
structure Decimal where
  digits : Text
  point : Int

/-- The exponent `p` with `10 ^ p ≤ num / den < 10 ^ (p + 1)`, for a positive quotient. -/
def decimalExponent (num den : Nat) : Int :=
  if den ≤ num then ((Text.ofNat (num / den)).length : Int) - 1
  else -((Text.ofNat ((den - 1) / num)).length : Int)

/-- A number with the midpoints to its neighbours, all three as multiples of one unit,
the quotient `unitNum / unitDen`. -/
structure Interval where
  low : Nat
  value : Nat
  high : Nat
  unitNum : Nat
  unitDen : Nat
  /-- Whether the midpoints belong to the interval. -/
  closed : Bool

/-- The decimals that read back as `significand * 2 ^ exponent`.  Below a power of two the
data lie twice as close, so the lower midpoint is nearer there. -/
def Interval.around (significand : Nat) (exponent : Int) : Interval where
  low := if significand = leadingBit ∧ minExponent < exponent then 4 * significand - 1
    else 4 * significand - 2
  value := 4 * significand
  high := 4 * significand + 2
  unitNum := Nat.pow 2 (exponent - 2).toNat
  unitDen := Nat.pow 2 (2 - exponent).toNat
  closed := significand % 2 == 0

namespace Interval

/-- How many units one grid step `10 ^ s` is, as numerator and denominator. -/
def step (i : Interval) (s : Int) : Nat × Nat :=
  (i.unitDen * Nat.pow 10 s.toNat, i.unitNum * Nat.pow 10 (-s).toNat)

/-- Whether the grid point `c * 10 ^ s` lies in the interval. -/
def contains (i : Interval) (s : Int) (c : Nat) : Bool :=
  let (num, den) := i.step s
  if i.closed then i.low * den ≤ c * num && c * num ≤ i.high * den
  else i.low * den < c * num && c * num < i.high * den

/-- The grid point of step `10 ^ s` that lies in the interval and is nearest to its
number, if there is one. -/
def gridPoint? (i : Interval) (tie : Tie) (s : Int) : Option Nat :=
  let (num, den) := i.step s
  let below := i.value * den / num
  let gap := i.value * den % num
  if gap = 0 then some below
  else match i.contains s below, i.contains s (below + 1) with
    | true, true =>
      if 2 * gap < num then some below
      else if num < 2 * gap then some (below + 1)
      else match tie with
        | .up => some (below + 1)
        | .toEven => if below % 2 = 0 then some below else some (below + 1)
    | true, false => some below
    | false, true => some (below + 1)
    | false, false => none

end Interval

/-- Digits without trailing zeros. -/
def dropTrailingZeros (digits : Text) : Text :=
  (digits.reverse.dropWhile (· == '0')).reverse

/-- The shortest decimal of the positive number `significand * 2 ^ exponent`. -/
def shortest (tie : Tie) (significand : Nat) (exponent : Int) : Decimal :=
  let i := Interval.around significand exponent
  let p := decimalExponent (i.value * i.unitNum) i.unitDen
  let found := (List.range 17).findSome? fun (n : Nat) =>
    (i.gridPoint? tie (p - n)).map fun c => (c, p - n)
  match found with
  | some (c, s) =>
    let digits := Text.ofNat c
    ⟨dropTrailingZeros digits, s + digits.length⟩
  | none => ⟨[], 0⟩

end SqlCompose.Binary64
