import Mathlib
import SqlCompose.Proofs.Window

/-!
# Counts from binary64 numbers

A `LIMIT` rounds a binary64 number down, a `TOP` rounds it towards zero, and both
bring the result into the signed 64-bit range.  They ask for the same rows all the
same: the roundings differ only below zero, where there is no clause.

* `denotation` is the number that the bits of a datum denote by the interchange
  format, as an exact rational.  `denotation_view` ties it to the integers that the
  library computes with.
* `floorCount_of_number` and `truncCount_of_number` say which whole number is taken.
* `rowCount` is what a datum asks for.

Main result: `clauses_of_binary64`.
-/

namespace SqlCompose

/-! ## The number of a datum -/

namespace Binary64

/-- What the bits of a datum denote. -/
inductive Denotation where
  | nan
  | infinity (negative : Bool)
  | number (q : ℚ)

/-- The interchange format: with sign `s`, biased exponent `e` and fraction `f` of 52 bits,
`(-1) ^ s * 2 ^ (e - 1023) * (1 + f / 2 ^ 52)`; the least exponent goes without the leading one
and counts as 1, the greatest is kept for the infinities and NaN. -/
def denotation (x : Binary64) : Denotation :=
  let word := x.bits.toBitVec
  let negative := word.msb
  let sign : ℚ := if negative then -1 else 1
  let exponent := (word.extractLsb 62 52).toNat
  let fraction := (word.extractLsb 51 0).toNat
  if exponent = 2047 then if fraction = 0 then .infinity negative else .nan
  else if exponent = 0 then .number (sign * 2 ^ (-1022 : ℤ) * (fraction / 2 ^ 52))
  else .number (sign * 2 ^ (exponent - 1023 : ℤ) * (1 + fraction / 2 ^ 52))

/-- What a reading in integers denotes. -/
def View.denotation : View → Denotation
  | .nan => .nan
  | .infinite negative => .infinity negative
  | .finite negative m e => .number ((if negative then -m else m : ℤ) * 2 ^ e)

theorem two_zpow_sub (e : ℤ) : (2 : ℚ) ^ (e - 1075) = 2 ^ (e - 1023) / 2 ^ 52 := by
  have hsplit : e - 1075 = e - 1023 - 52 := by ring
  rw [hsplit, zpow_sub₀ (by norm_num)]
  norm_num

/-- The reading in integers denotes the same as the bits. -/
theorem denotation_view (x : Binary64) : x.view.denotation = x.denotation := by
  have hexponent : (x.bits.toBitVec.extractLsb 62 52).toNat =
      x.bits.toNat / Nat.pow 2 52 % Nat.pow 2 11 := by
    rw [BitVec.extractLsb_toNat, Nat.shiftRight_eq_div_pow]
    rfl
  have hfraction : (x.bits.toBitVec.extractLsb 51 0).toNat = x.bits.toNat % Nat.pow 2 52 := by
    rw [BitVec.extractLsb_toNat, Nat.shiftRight_zero]
    rfl
  have hsign : x.bits.toBitVec.msb = decide (x.bits.toNat / Nat.pow 2 63 = 1) := by
    have hsize := x.bits.toNat_lt
    have hpow : Nat.pow 2 63 = 2 ^ 63 := rfl
    rw [BitVec.msb_eq_decide, UInt64.toNat_toBitVec, hpow, decide_eq_decide]
    omega
  rw [view, denotation, hexponent, hfraction, hsign, beq_eq_decide]
  generalize decide (x.bits.toNat / Nat.pow 2 63 = 1) = negative
  generalize x.bits.toNat / Nat.pow 2 52 % Nat.pow 2 11 = exponent
  generalize x.bits.toNat % Nat.pow 2 52 = fraction
  have hsigned : ∀ m : ℕ, ((if negative then -m else m : ℤ) : ℚ) =
      (if negative then -1 else 1) * m := by
    intro m
    cases negative <;> simp
  have hleast : (2 : ℚ) ^ minExponent = 2 ^ (-1022 : ℤ) / 2 ^ 52 := two_zpow_sub 1
  have hleading : (leadingBit : ℚ) = 2 ^ 52 := by norm_num [leadingBit]
  by_cases hall : exponent = 2047
  · rw [if_pos hall, if_pos hall]
    split_ifs <;> rfl
  · rw [if_neg hall, if_neg hall]
    by_cases hzero : exponent = 0
    · rw [if_pos hzero, if_pos hzero, View.denotation, hsigned, hleast]
      congr 1
      generalize (2 : ℚ) ^ (-1022 : ℤ) = scale
      ring
    · rw [if_neg hzero, if_neg hzero, View.denotation, hsigned, two_zpow_sub, Nat.cast_add,
        hleading]
      congr 1
      ring

/-! ## Whole numbers -/

/-- A number without its fraction. -/
def truncate (q : ℚ) : ℤ := if 0 ≤ q then ⌊q⌋ else ⌈q⌉

theorem fdiv_eq_floor (n : ℤ) (d : ℕ) : n.fdiv d = ⌊(n / d : ℚ)⌋ := by
  rw [Rat.floor_intCast_div_natCast, Int.fdiv_eq_ediv_of_nonneg n (Int.natCast_nonneg d)]

theorem tdiv_eq_truncate (n : ℤ) (d : ℕ) : n.tdiv d = truncate (n / d) := by
  have hnonneg : ∀ k : ℤ, 0 ≤ k → k.tdiv d = ⌊(k / d : ℚ)⌋ := by
    intro k hk
    rw [Rat.floor_intCast_div_natCast, Int.tdiv_eq_ediv_of_nonneg hk]
  by_cases hn : 0 ≤ n
  · have hquotient : (0 : ℚ) ≤ n / d := div_nonneg (mod_cast hn) (Nat.cast_nonneg d)
    rw [truncate, if_pos hquotient, hnonneg n hn]
  · have hopposite : n.tdiv d = ⌈(n / d : ℚ)⌉ := by
      have hneg := hnonneg (-n) (by omega)
      rw [Int.neg_tdiv, Int.cast_neg, neg_div, Int.floor_neg] at hneg
      exact neg_injective hneg
    rw [truncate]
    split_ifs with hquotient
    · -- Only a division by zero makes a negative number zero.
      have hzero : (n / d : ℚ) = 0 :=
        le_antisymm (div_nonpos_of_nonpos_of_nonneg (mod_cast (not_le.1 hn).le)
          (Nat.cast_nonneg d)) hquotient
      rw [hopposite, hzero, Int.ceil_zero, Int.floor_zero]
    · exact hopposite

/-- A power of two with an integer exponent is a quotient of two with natural ones. -/
theorem mul_two_zpow (s e : ℤ) :
    (s * 2 ^ e : ℚ) = ((s * Nat.pow 2 e.toNat : ℤ) : ℚ) / (Nat.pow 2 (-e).toNat : ℕ) := by
  have hpow : ∀ k, Nat.pow 2 k = 2 ^ k := fun _ => rfl
  rw [hpow, hpow]
  rcases Int.le_total 0 e with he | he
  · obtain ⟨k, rfl⟩ := Int.eq_ofNat_of_zero_le he
    simp
  · obtain ⟨k, hk⟩ := Int.eq_ofNat_of_zero_le (a := -e) (by omega)
    obtain rfl : e = -(k : ℤ) := by omega
    simp [div_eq_mul_inv]

theorem toCount_of_number {round : ℤ → ℤ → ℤ} {wholePart : ℚ → ℤ}
    (hround : ∀ (n : ℤ) (d : ℕ), round n d = wholePart (n / d)) {x : Binary64} {q : ℚ}
    (hq : x.denotation = .number q) : x.toCount round = saturate (wholePart q) := by
  rw [← denotation_view] at hq
  rw [toCount]
  cases hview : x.view with
  | nan | infinite negative => simp [hview, View.denotation] at hq
  | finite negative m e =>
    rw [hview, View.denotation, Denotation.number.injEq] at hq
    rw [mul_two_zpow] at hq
    dsimp only
    rw [hround, hq]

theorem floorCount_of_number {x : Binary64} {q : ℚ} (hq : x.denotation = .number q) :
    x.floorCount = saturate ⌊q⌋ :=
  toCount_of_number fdiv_eq_floor hq

theorem truncCount_of_number {x : Binary64} {q : ℚ} (hq : x.denotation = .number q) :
    x.truncCount = saturate (truncate q) :=
  toCount_of_number tdiv_eq_truncate hq

theorem toCount_of_infinity {round : ℤ → ℤ → ℤ} {x : Binary64} {negative : Bool}
    (h : x.denotation = .infinity negative) :
    x.toCount round = if negative then Int64.minValue else Int64.maxValue := by
  rw [← denotation_view] at h
  rw [toCount]
  cases hview : x.view with
  | nan | finite negative m e => simp [hview, View.denotation] at h
  | infinite sign =>
    rw [hview, View.denotation, Denotation.infinity.injEq] at h
    rw [← h]

theorem toCount_of_nan {round : ℤ → ℤ → ℤ} {x : Binary64} (h : x.denotation = .nan) :
    x.toCount round = 0 := by
  rw [← denotation_view] at h
  rw [toCount]
  cases hview : x.view with
  | nan => rfl
  | infinite negative | finite negative m e => simp [hview, View.denotation] at h

end Binary64

/-! ## Rows -/

/-- A keyword with a number of rows, if there is one. -/
def countClause (keyword : Text) : Option ℕ → Text
  | none => []
  | some rows => keyword ++ ' ' :: Text.ofNat rows

/-- The rows that a signed word asks for: none if it is not positive. -/
def askedRows (n : Int64) : Option ℕ := if 0 < n then some n.toInt.toNat else none

theorem RowLimit.clause_count (n : Int64) :
    RowLimit.clause (some (.count n)) = countClause "LIMIT" (askedRows n) := by
  have hpositive : 1 ≤ n ↔ 0 < n := by
    rw [Int64.le_iff_toInt_le, Int64.lt_iff_toInt_lt]
    exact Int.add_one_le_iff (a := 0)
  rw [RowLimit.clause, Option.map_some, Option.getD_some, RowLimit.body, askedRows]
  simp only [hpositive]
  split_ifs with h
  · rw [Text.clause, List.isEmpty_eq_false_iff.2 (RowLimit.countText_ne_nil n),
      RowLimit.countText_of_pos h]
    rfl
  · rfl

theorem Top.clause_of_rows {t : Top} {n : Int64} (h : t.rows = some n) :
    Top.clause (some t) = countClause "TOP" (askedRows n) := by
  rw [Top.clause, Option.bind_some, h, askedRows]
  dsimp only
  split_ifs with hpositive
  · rw [RowLimit.countText_of_pos hpositive]
    simp [countClause, lit]
  · rfl

namespace Binary64

theorem askedRows_saturate (n : ℤ) :
    askedRows (saturate n) = if n < 1 then none else some (min n (2 ^ 63 - 1)).toNat := by
  have hmin : Int64.minValue.toInt = -2 ^ 63 := by decide
  have hmax : Int64.maxValue.toInt = 2 ^ 63 - 1 := by decide
  have hsaturate : (saturate n).toInt = max (-2 ^ 63) (min n (2 ^ 63 - 1)) := by
    rw [saturate, hmin, hmax]
    split_ifs with hlow hhigh
    · omega
    · omega
    · rw [Int64.toInt_ofInt_of_le (by omega) (by omega)]
      omega
  have hzero : (0 : Int64).toInt = 0 := by decide
  rw [askedRows]
  simp only [Int64.lt_iff_toInt_lt, hsaturate, hzero]
  split_ifs with hpositive hsmall
  · omega
  · congr 1
    omega
  · rfl
  · omega

theorem truncate_of_one_le {q : ℚ} (h : 1 ≤ q) : truncate q = ⌊q⌋ :=
  if_pos (zero_le_one.trans h)

theorem truncate_lt_one {q : ℚ} (h : q < 1) : truncate q < 1 := by
  rw [truncate]
  split_ifs with hq
  · exact Int.floor_lt.2 (mod_cast h)
  · have hceil : ⌈q⌉ ≤ 0 := Int.ceil_le.2 (mod_cast (not_le.1 hq).le)
    omega

/-- The rows that a datum asks for: its whole part from one on, as far as a signed word goes,
and no number of rows for NaN and for all that is less than one. -/
def rowCount (x : Binary64) : Option ℕ :=
  match x.denotation with
  | .nan => none
  | .infinity negative => if negative then none else some (2 ^ 63 - 1)
  | .number q =>
    if q < 1 then none else if q < 2 ^ 63 then some ⌊q⌋.toNat else some (2 ^ 63 - 1)

/-- A rounding that keeps what is less than one below one and is the whole part of all else
asks for the rows of the datum. -/
theorem askedRows_toCount {round : ℤ → ℤ → ℤ} {wholePart : ℚ → ℤ} {x : Binary64}
    (hnumber : ∀ q, x.denotation = .number q → x.toCount round = saturate (wholePart q))
    (hbelow : ∀ q < 1, wholePart q < 1) (hfrom : ∀ q, 1 ≤ q → wholePart q = ⌊q⌋) :
    askedRows (x.toCount round) = x.rowCount := by
  rw [rowCount]
  cases hx : x.denotation with
  | nan =>
    rw [toCount_of_nan hx]
    decide
  | infinity negative =>
    rw [toCount_of_infinity hx]
    cases negative <;> decide
  | number q =>
    rw [hnumber q hx, askedRows_saturate]
    dsimp only
    by_cases hone : q < 1
    · rw [if_pos (hbelow q hone), if_pos hone]
    · have hq : 1 ≤ q := not_lt.1 hone
      have hfloor : ¬⌊q⌋ < 1 := not_lt.2 (Int.le_floor.2 (mod_cast hq))
      have hend : ⌊q⌋ < 2 ^ 63 ↔ q < 2 ^ 63 := by
        rw [Int.floor_lt]
        norm_num
      rw [hfrom q hq, if_neg hfloor, if_neg hone]
      split_ifs with hfits
      · congr 2
        have hbound := hend.2 hfits
        omega
      · congr 1
        have hbound := mt hend.1 hfits
        omega

/-- A number limits a statement to the same rows by `LIMIT` and by `TOP`, although one rounds
it down and the other towards zero: to its whole part from one on, at most as many as a signed
word can count, and not at all if it is NaN or less than one. -/
theorem clauses_of_binary64 (x : Binary64) :
    RowLimit.clause (some (.ofBinary64 x)) = countClause "LIMIT" x.rowCount ∧
      Top.clause (some (.ofBinary64 x)) = countClause "TOP" x.rowCount := by
  have hfloor : askedRows x.floorCount = x.rowCount :=
    askedRows_toCount (fun _ => floorCount_of_number)
      (fun _ hq => Int.floor_lt.2 (mod_cast hq)) fun _ _ => rfl
  have htrunc : askedRows x.truncCount = x.rowCount :=
    askedRows_toCount (fun _ => truncCount_of_number)
      (fun _ => truncate_lt_one) fun _ => truncate_of_one_le
  constructor
  · rw [RowLimit.ofBinary64, RowLimit.clause_count, hfloor]
  · rw [Top.clause_of_rows (t := .ofBinary64 x) rfl, htrunc]

/-- The greatest number below one, one half below zero, and the ends of the signed range. -/
example :
    Top.clause (some (.ofBinary64 ⟨0x3FEFFFFFFFFFFFFF⟩)) = [] ∧
      RowLimit.clause (some (.ofBinary64 ⟨0xBFE0000000000000⟩)) = [] ∧
      Top.clause (some (.ofBinary64 ⟨0x43DFFFFFFFFFFFFF⟩)) = lit "TOP 9223372036854774784" ∧
      RowLimit.clause (some (.ofBinary64 ⟨0x43E0000000000000⟩)) =
        lit "LIMIT 9223372036854775807" := by
  decide +kernel

end Binary64

end SqlCompose
