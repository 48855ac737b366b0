import SqlCompose.Binary64.Shortest

/-!
# Written numbers

How the shortest digits of a finite datum are laid out.  SQL text is positional
throughout: digits, and a point with more digits where there is a fraction.  JSON text
marks a whole number by `.0` and turns to an exponent for very large and very small
numbers.
-/

namespace SqlCompose.Binary64

/-- The choices that a written form makes. -/
structure Layout where
  /-- Which of two equally near shortest decimals is taken. -/
  tie : Tie
  /-- What follows the digits of a whole number. -/
  wholeTail : Text
  /-- The decimal exponents that are written positionally, or all of them. -/
  positional : Option (Int × Int)

/-- Numbers in SQL: never an exponent, and a whole number has no point.  Of two equally
near decimals the greater is written. -/
def Layout.sql : Layout := ⟨.up, [], none⟩

/-- Numbers in JSON: a whole number ends in `.0`, and an exponent is written from `1e16`
upwards and below `1e-5`.  Of two equally near decimals the even one is written. -/
def Layout.json : Layout := ⟨.toEven, ".0", some (-5, 15)⟩

namespace Layout

/-- Digits with the point in its place. -/
def place (layout : Layout) (d : Decimal) : Text :=
  if d.point ≤ 0 then "0." ++ List.replicate (-d.point).toNat '0' ++ d.digits
  else if (d.digits.length : Int) ≤ d.point then
    d.digits ++ List.replicate (d.point.toNat - d.digits.length) '0' ++ layout.wholeTail
  else d.digits.take d.point.toNat ++ '.' :: d.digits.drop d.point.toNat

/-- One digit, the others behind a point, and the exponent with its sign. -/
def scientific (d : Decimal) : Text :=
  let mantissa := d.digits.take 1 ++ (if d.digits.length ≤ 1 then [] else '.' :: d.digits.drop 1)
  let exponent := d.point - 1
  mantissa ++ 'e' :: (if exponent < 0 then '-' else '+') :: Text.ofNat exponent.natAbs

/-- A magnitude that is not zero. -/
def decimal (layout : Layout) (d : Decimal) : Text :=
  match layout.positional with
  | none => layout.place d
  | some (least, greatest) =>
    if least ≤ d.point - 1 ∧ d.point - 1 ≤ greatest then layout.place d else scientific d

/-- The text of a finite number. -/
def write (layout : Layout) (negative : Bool) (significand : Nat) (exponent : Int) : Text :=
  (if negative then ['-'] else []) ++
    if significand = 0 then '0' :: layout.wholeTail
    else layout.decimal (shortest layout.tie significand exponent)

end Layout

end SqlCompose.Binary64
