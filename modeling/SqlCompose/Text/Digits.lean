import SqlCompose.Text.Basic

/-!
# Digits

Numbers as text: plain decimals, decimals with a sign, and digit strings of fixed width
in any base up to sixteen.
-/

namespace SqlCompose.Text

/-- The decimal digits of a natural number, without leading zeros. -/
def ofNat (n : Nat) : Text := Nat.toDigits 10 n

/-- The decimal digits of an integer, with a minus sign when it is negative. -/
def ofInt : Int → Text
  | .ofNat n => ofNat n
  | .negSucc n => '-' :: ofNat (n + 1)

/-- The last `width` digits of a number in the given base, leading zeros included, with
lower-case letters above nine. -/
def fixedDigits (base : Nat) : Nat → Nat → Text
  | 0, _ => []
  | width + 1, n => fixedDigits base width (n / base) ++ [Nat.digitChar (n % base)]

@[simp] theorem length_fixedDigits (base width n : Nat) :
    (fixedDigits base width n).length = width := by
  induction width generalizing n with
  | zero => rfl
  | succ width ih => simp [fixedDigits, ih]

/-- The number that a run of decimal digits denotes, read on from `acc`. -/
def decimalFrom (acc : Nat) (digits : Text) : Nat :=
  digits.foldl (fun n c => 10 * n + (c.toNat - '0'.toNat)) acc

/-- The number that a run of decimal digits denotes; an empty run denotes zero. -/
def decimal (digits : Text) : Nat := decimalFrom 0 digits

/-- The value of a hexadecimal digit of either case. -/
def hexDigit? (c : Char) : Option Nat :=
  if c.isDigit then some (c.toNat - '0'.toNat)
  else if 'a' ≤ c ∧ c ≤ 'f' then some (c.toNat - 'a'.toNat + 10)
  else if 'A' ≤ c ∧ c ≤ 'F' then some (c.toNat - 'A'.toNat + 10)
  else none

end SqlCompose.Text
