import Mathlib
import SqlCompose.Proofs.Reading.Charset

/-!
# Runs of digits

A reader takes digits up to the first character that is none, or a fixed
number of them.  `span_digits` says where a run ends, and
`decimal_fixedDigits` which number is written with a fixed width.
-/

namespace SqlCompose.Text

/-- Digits end where something else begins. -/
theorem span_digits {digits rest : Text} (hdigits : ∀ c ∈ digits, c.isDigit = true)
    (hrest : ∀ c ∈ rest.head?, c.isDigit = false) :
    (digits ++ rest).takeWhile Char.isDigit = digits ∧
      (digits ++ rest).dropWhile Char.isDigit = rest := by
  rw [List.takeWhile_append_of_pos hdigits, List.dropWhile_append_of_pos hdigits]
  cases rest with
  | nil => simp
  | cons c rest =>
    have hc : c.isDigit = false := hrest c rfl
    simp [hc]

theorem decimal_concat (digits : Text) (c : Char) :
    decimal (digits ++ [c]) = 10 * decimal digits + (c.toNat - '0'.toNat) := by
  rw [decimal, decimalFrom, List.foldl_append, List.foldl_cons, List.foldl_nil, decimal, decimalFrom]

/-- Zeros in front of a number change nothing. -/
theorem decimal_zeros (k : Nat) (digits : Text) :
    decimal (List.replicate k '0' ++ digits) = decimal digits := by
  induction k with
  | zero => rfl
  | succ k ih =>
    rw [decimal, decimalFrom, List.replicate_succ, List.cons_append, List.foldl_cons]
    exact ih

theorem digitChar_lt_ten :
    ∀ k < 10, (Nat.digitChar k).isDigit = true ∧ (Nat.digitChar k).toNat - '0'.toNat = k := by
  decide

theorem isDigit_of_mem_fixedDigits {width n : Nat} {c : Char} (h : c ∈ fixedDigits 10 width n) :
    c.isDigit = true := by
  induction width generalizing n with
  | zero => simp [fixedDigits] at h
  | succ width ih =>
    rw [fixedDigits, List.mem_append, List.mem_singleton] at h
    rcases h with h | rfl
    · exact ih h
    · exact (digitChar_lt_ten _ (Nat.mod_lt n (by decide))).1

/-- A fixed width writes the last digits of a number. -/
theorem decimal_fixedDigits (width n : Nat) : decimal (fixedDigits 10 width n) = n % 10 ^ width := by
  induction width generalizing n with
  | zero => simp [fixedDigits, decimal, decimalFrom, Nat.mod_one]
  | succ width ih =>
    rw [fixedDigits, decimal_concat, ih, (digitChar_lt_ten _ (Nat.mod_lt n (by decide))).2,
      Nat.pow_succ', Nat.mod_mul, Nat.add_comm]

end SqlCompose.Text
