import SqlCompose.Proofs.Grammar.Sentence
import SqlCompose.Proofs.OperandList

/-!
# Numbers are literals

Integers and finite floating-point data are written as one number each.  For
the latter this is a fact about the search for the shortest decimal: it
always ends, so no number is written without digits.

The search looks at seventeen grids, and the last of them is fine enough.
`pow_decimalExponent_le` says that the search begins at the leading digit of
the number, so a step of the last grid is at most the number divided by
`10 ^ 16`.  A significand has 53 bits, so this is less than the interval of
the decimals that read back (`step_lt_width`), and a step shorter than the
interval has a grid point in it (`gridPoint?_isSome`).
-/

namespace SqlCompose

open Grammar

namespace Text

theorem lt_pow_length_ofNat (n : Nat) : n < 10 ^ (ofNat n).length :=
  (Nat.length_toDigits_le_iff (by decide) Nat.length_toDigits_pos).1 le_rfl

theorem pow_length_ofNat_le {n : Nat} (h : 0 < n) : 10 ^ ((ofNat n).length - 1) ≤ n := by
  by_contra hlt
  cases hlength : (ofNat n).length - 1 with
  | zero =>
    rw [hlength] at hlt
    omega
  | succ k =>
    have hle := (Nat.length_toDigits_le_iff (b := 10) (k := k + 1) (by decide) (by omega)).2
      (by rw [hlength] at hlt; omega : n < 10 ^ (k + 1))
    have : (ofNat n).length ≤ k + 1 := hle
    omega

end Text

namespace Binary64

/-- The power of ten that a number is measured by is not above it. -/
theorem pow_decimalExponent_le {num den : Nat} (hnum : 0 < num) (hden : 0 < den) :
    den * 10 ^ (decimalExponent num den).toNat ≤ num * 10 ^ (-decimalExponent num den).toNat := by
  unfold decimalExponent
  split
  · rename_i hle
    have hquotient : 0 < num / den := Nat.div_pos hle hden
    have hpos : 0 < (Text.ofNat (num / den)).length := Nat.length_toDigits_pos
    have hup : (((Text.ofNat (num / den)).length : Int) - 1).toNat =
        (Text.ofNat (num / den)).length - 1 := by omega
    have hdown : (-(((Text.ofNat (num / den)).length : Int) - 1)).toNat = 0 := by omega
    rw [hup, hdown, pow_zero, mul_one]
    calc den * 10 ^ ((Text.ofNat (num / den)).length - 1)
        ≤ den * (num / den) := Nat.mul_le_mul_left den (Text.pow_length_ofNat_le hquotient)
      _ ≤ num := Nat.mul_div_le num den
  · rename_i hlt
    have hup : (-((Text.ofNat ((den - 1) / num)).length : Int)).toNat = 0 := by omega
    have hdown : (- -((Text.ofNat ((den - 1) / num)).length : Int)).toNat =
        (Text.ofNat ((den - 1) / num)).length := by omega
    rw [hup, hdown, pow_zero, mul_one]
    have hless : den - 1 < num * 10 ^ (Text.ofNat ((den - 1) / num)).length :=
      (Nat.div_lt_iff_lt_mul hnum).1 (Text.lt_pow_length_ofNat _) |>.trans_eq (Nat.mul_comm ..)
    omega

namespace Interval

/-- A step of the grid with `n` more digits is at most the number divided by `10 ^ n`. -/
theorem step_mul_pow_le {i : Interval} (hvalue : 0 < i.value * i.unitNum) (hden : 0 < i.unitDen)
    (n : Nat) :
    (i.step (decimalExponent (i.value * i.unitNum) i.unitDen - n)).1 * 10 ^ n ≤
      i.value * (i.step (decimalExponent (i.value * i.unitNum) i.unitDen - n)).2 := by
  have hlead := pow_decimalExponent_le hvalue hden
  generalize decimalExponent (i.value * i.unitNum) i.unitDen = p at hlead ⊢
  have hexponents : (p - n).toNat + n + (-p).toNat = p.toNat + (-(p - n)).toNat := by omega
  have hcancel : 0 < 10 ^ (-p).toNat := by positivity
  refine Nat.le_of_mul_le_mul_right ?_ hcancel
  change i.unitDen * 10 ^ (p - n).toNat * 10 ^ n * 10 ^ (-p).toNat ≤
    i.value * (i.unitNum * 10 ^ (-(p - n)).toNat) * 10 ^ (-p).toNat
  calc i.unitDen * 10 ^ (p - n).toNat * 10 ^ n * 10 ^ (-p).toNat
      = i.unitDen * 10 ^ ((p - n).toNat + n + (-p).toNat) := by rw [pow_add, pow_add]; ring
    _ = i.unitDen * 10 ^ p.toNat * 10 ^ (-(p - n)).toNat := by rw [hexponents, pow_add]; ring
    _ ≤ i.value * i.unitNum * 10 ^ (-p).toNat * 10 ^ (-(p - n)).toNat :=
      Nat.mul_le_mul_right _ hlead
    _ = i.value * (i.unitNum * 10 ^ (-(p - n)).toNat) * 10 ^ (-p).toNat := by ring

theorem step_pos {i : Interval} (hnum : 0 < i.unitNum) (hden : 0 < i.unitDen) (s : Int) :
    0 < (i.step s).1 ∧ 0 < (i.step s).2 := by
  have hpow : ∀ k : Nat, 0 < Nat.pow 10 k := fun k => Nat.pow_pos (by decide)
  exact ⟨Nat.mul_pos hden (hpow _), Nat.mul_pos hnum (hpow _)⟩

theorem contains_eq (i : Interval) (s : Int) (c : Nat) :
    i.contains s c =
      if i.closed then
        decide (i.low * (i.step s).2 ≤ c * (i.step s).1) &&
          decide (c * (i.step s).1 ≤ i.high * (i.step s).2)
      else
        decide (i.low * (i.step s).2 < c * (i.step s).1) &&
          decide (c * (i.step s).1 < i.high * (i.step s).2) :=
  rfl

/-- A point strictly between the midpoints is in the interval, whether these belong to it
or not. -/
theorem contains_of_between {i : Interval} {s : Int} {c : Nat}
    (hlow : i.low * (i.step s).2 < c * (i.step s).1)
    (hhigh : c * (i.step s).1 < i.high * (i.step s).2) : i.contains s c = true := by
  rw [contains_eq]
  split
  · simp [hlow.le, hhigh.le]
  · simp [hlow, hhigh]

theorem le_of_contains {i : Interval} {s : Int} {c : Nat} (h : i.contains s c = true) :
    i.low * (i.step s).2 ≤ c * (i.step s).1 := by
  rw [contains_eq] at h
  split at h
  · simp only [Bool.and_eq_true, decide_eq_true_eq] at h
    exact h.1
  · simp only [Bool.and_eq_true, decide_eq_true_eq] at h
    exact h.1.le

section

variable (i : Interval) (s : Int)

/-- The grid point that is not above the number. -/
def below : Nat := i.value * (i.step s).2 / (i.step s).1

/-- How far the number is above it. -/
def gap : Nat := i.value * (i.step s).2 % (i.step s).1

/-- The search takes the number itself where it is on the grid, else a neighbour in the
interval, and fails only where neither of the two is in it. -/
theorem gridPoint?_cases (tie : Tie) :
    (i.gap s = 0 ∧ i.gridPoint? tie s = some (i.below s)) ∨
    (∃ c, i.contains s c = true ∧ i.gridPoint? tie s = some c) ∨
    (i.gap s ≠ 0 ∧ i.contains s (i.below s) = false ∧ i.contains s (i.below s + 1) = false ∧
      i.gridPoint? tie s = none) := by
  generalize hfound : i.gridPoint? tie s = found
  rw [gridPoint?] at hfound
  dsimp only at hfound
  split at hfound
  next hexact => exact .inl ⟨hexact, hfound.symm⟩
  next hgap =>
    refine .inr ?_
    split at hfound
    next hbelow hnext =>
      have htwo : found = some (i.below s) ∨ found = some (i.below s + 1) := by
        rw [← hfound]
        split_ifs
        · exact .inl rfl
        · exact .inr rfl
        · cases tie
          · exact .inr rfl
          · exact .inl rfl
        · cases tie <;> exact .inr rfl
      rcases htwo with rfl | rfl
      · exact .inl ⟨_, hbelow, rfl⟩
      · exact .inl ⟨_, hnext, rfl⟩
    next hbelow _ => exact .inl ⟨_, hbelow, hfound.symm⟩
    next _ hnext => exact .inl ⟨_, hnext, hfound.symm⟩
    next hbelow hnext => exact .inr ⟨hgap, hbelow, hnext, hfound.symm⟩

end

/-- A step shorter than the interval has a grid point in it. -/
theorem gridPoint?_isSome {i : Interval} {s : Int} (tie : Tie) (hpos : 0 < (i.step s).1)
    (hlow : i.low ≤ i.value) (hhigh : i.value ≤ i.high)
    (hstep : (i.step s).1 < (i.high - i.low) * (i.step s).2) :
    (i.gridPoint? tie s).isSome = true := by
  rcases i.gridPoint?_cases s tie with ⟨-, hfound⟩ | ⟨c, -, hfound⟩ | ⟨hgap, hbelow, hnext, -⟩
  · rw [hfound]
    rfl
  · rw [hfound]
    rfl
  · -- one of the neighbours is nearer than the midpoint on its side
    exfalso
    have hsplit : i.below s * (i.step s).1 + i.gap s = i.value * (i.step s).2 :=
      Nat.div_add_mod' ..
    have hless : i.gap s < (i.step s).1 := Nat.mod_lt _ hpos
    have hlowden := Nat.mul_le_mul_right (i.step s).2 hlow
    have hhighden := Nat.mul_le_mul_right (i.step s).2 hhigh
    have hsucc : (i.below s + 1) * (i.step s).1 = i.below s * (i.step s).1 + (i.step s).1 :=
      Nat.succ_mul ..
    rw [Nat.sub_mul] at hstep
    by_cases hnear : i.low * (i.step s).2 < i.below s * (i.step s).1
    · have hin := contains_of_between hnear (by omega)
      rw [hin] at hbelow
      exact Bool.noConfusion hbelow
    · have hin := contains_of_between (i := i) (s := s) (c := i.below s + 1) (by omega) (by omega)
      rw [hin] at hnext
      exact Bool.noConfusion hnext

/-- The number zero is no grid point of an interval above it. -/
theorem gridPoint?_ne_zero {i : Interval} {tie : Tie} {s : Int} {c : Nat}
    (hden : 0 < (i.step s).2) (hlow : 0 < i.low) (hvalue : 0 < i.value)
    (h : i.gridPoint? tie s = some c) : c ≠ 0 := by
  have hcontained : ∀ c, i.contains s c = true → c ≠ 0 := by
    rintro c hc rfl
    have hle := le_of_contains hc
    rw [Nat.zero_mul, Nat.le_zero, Nat.mul_eq_zero] at hle
    omega
  rcases i.gridPoint?_cases s tie with ⟨hexact, hfound⟩ | ⟨c', hc', hfound⟩ | ⟨-, -, -, hnone⟩
  · obtain rfl := Option.some.inj (hfound.symm.trans h)
    intro hzero
    have hsplit : i.below s * (i.step s).1 + i.gap s = i.value * (i.step s).2 :=
      Nat.div_add_mod' ..
    rw [hzero, hexact, Nat.zero_mul] at hsplit
    have hpos := Nat.mul_pos hvalue hden
    omega
  · obtain rfl := Option.some.inj (hfound.symm.trans h)
    exact hcontained c' hc'
  · rw [hnone] at h
    cases h

/-! ### The interval of a datum -/

section

variable {m : Nat} (e : Int)

theorem around_units_pos : 0 < (around m e).unitNum ∧ 0 < (around m e).unitDen :=
  ⟨Nat.pow_pos (by decide), Nat.pow_pos (by decide)⟩

theorem low_around : (around m e).low = 4 * m - 1 ∧ m = leadingBit ∨
    (around m e).low = 4 * m - 2 := by
  unfold around
  dsimp only
  split
  · rename_i h
    exact .inl ⟨rfl, h.1⟩
  · exact .inr rfl

/-- With 53 bits, the number is less than `10 ^ 16` times the interval around it. -/
theorem value_lt_width (hm : 0 < m) (hlt : m < 2 ^ 53) :
    (around m e).value < ((around m e).high - (around m e).low) * 10 ^ 16 := by
  have hvalue : (around m e).value = 4 * m := rfl
  have hhigh : (around m e).high = 4 * m + 2 := rfl
  have hleading : leadingBit = 2 ^ 52 := rfl
  rcases low_around (m := m) e with ⟨hlow, hm⟩ | hlow
  · omega
  · omega

/-- The seventeenth grid has a point in the interval. -/
theorem gridPoint?_around_isSome (tie : Tie) (hm : 0 < m) (hlt : m < 2 ^ 53) :
    ((around m e).gridPoint? tie
      (decimalExponent ((around m e).value * (around m e).unitNum) (around m e).unitDen -
        (16 : Nat))).isSome = true := by
  obtain ⟨hunit, hden⟩ := around_units_pos (m := m) e
  have hvalue : 0 < (around m e).value := by
    change 0 < 4 * m
    omega
  have hlow : (around m e).low ≤ (around m e).value := by
    have : (around m e).value = 4 * m := rfl
    rcases low_around (m := m) e with ⟨hlow, -⟩ | hlow <;> omega
  have hhigh : (around m e).value ≤ (around m e).high := Nat.le_add_right ..
  have hstep := step_mul_pow_le (Nat.mul_pos hvalue hunit) hden 16
  have hwidth := value_lt_width e hm hlt
  generalize decimalExponent ((around m e).value * (around m e).unitNum) (around m e).unitDen -
    (16 : Nat) = s at hstep ⊢
  obtain ⟨hnum, hpos⟩ := step_pos hunit hden s
  refine gridPoint?_isSome tie hnum hlow hhigh (Nat.lt_of_mul_lt_mul_right (a := 10 ^ 16) ?_)
  calc ((around m e).step s).1 * 10 ^ 16
      ≤ (around m e).value * ((around m e).step s).2 := hstep
    _ < ((around m e).high - (around m e).low) * 10 ^ 16 * ((around m e).step s).2 :=
      Nat.mul_lt_mul_of_pos_right hwidth hpos
    _ = ((around m e).high - (around m e).low) * ((around m e).step s).2 * 10 ^ 16 := by ring

end

end Interval

/-! ## The digits of a number -/

theorem dropTrailingZeros_ofNat_ne_nil {n : Nat} (h : n ≠ 0) :
    dropTrailingZeros (Text.ofNat n) ≠ [] := by
  intro hnil
  rw [dropTrailingZeros, List.reverse_eq_nil_iff, List.dropWhile_eq_nil_iff] at hnil
  have hzeros : ∀ digits : Text, (∀ c ∈ digits, (c == '0') = true) → Text.decimal digits = 0 := by
    intro digits hall
    induction digits with
    | nil => rfl
    | cons c rest ih =>
      obtain rfl : c = '0' := by simpa using hall c (by simp)
      exact ih fun d hd => hall d (by simp [hd])
  have hzero := hzeros (Text.ofNat n) fun c hc => hnil c (List.mem_reverse.2 hc)
  rw [Value.decimal_ofNat] at hzero
  exact h hzero

/-- The shortest decimal is found. -/
theorem digits_shortest_ne_nil (tie : Tie) {m : Nat} (e : Int) (hm : 0 < m) (hlt : m < 2 ^ 53) :
    (shortest tie m e).digits ≠ [] := by
  obtain ⟨hunit, hden⟩ := Interval.around_units_pos (m := m) e
  have hvalue : 0 < (Interval.around m e).value := by
    change 0 < 4 * m
    omega
  have hlow : 0 < (Interval.around m e).low := by
    rcases Interval.low_around (m := m) e with ⟨hlow, -⟩ | hlow <;> omega
  unfold shortest
  dsimp only
  split
  · rename_i c s hfound
    obtain ⟨n, -, hn⟩ := List.exists_of_findSome?_eq_some hfound
    obtain ⟨c', hc', heq⟩ := Option.map_eq_some_iff.1 hn
    obtain ⟨rfl, rfl⟩ := Prod.mk.inj heq
    exact dropTrailingZeros_ofNat_ne_nil
      (Interval.gridPoint?_ne_zero (Interval.step_pos hunit hden _).2 hlow hvalue hc')
  · rename_i hnone
    have hlast := List.findSome?_eq_none_iff.1 hnone 16 (by decide)
    have hfound := Interval.gridPoint?_around_isSome e tie hm hlt
    rw [Option.map_eq_none_iff.1 hlast] at hfound
    exact Bool.noConfusion hfound

theorem isDigits_zero : IsDigits ['0'] := ⟨by simp, by simp⟩

theorem isDigits_replicate_append (k : Nat) {digits : Text} (h : IsDigits digits) :
    IsDigits (List.replicate k '0' ++ digits) ∧ IsDigits (digits ++ List.replicate k '0') := by
  have hzero : ∀ c ∈ List.replicate k '0', c.isDigit = true := by
    intro c hc
    rw [List.eq_of_mem_replicate hc]
    decide
  refine ⟨⟨by simp [h.1], fun c hc => ?_⟩, ⟨by simp [h.1], fun c hc => ?_⟩⟩
  · exact (List.mem_append.1 hc).elim (hzero c) (h.2 c)
  · exact (List.mem_append.1 hc).elim (h.2 c) (hzero c)

/-- Digits with the point in its place are a number. -/
theorem Layout.unsigned_place {d : Decimal} (h : IsDigits d.digits) :
    Unsigned (Layout.sql.place d) := by
  unfold place
  split_ifs with hfraction hwhole
  · exact .fraction isDigits_zero (isDigits_replicate_append _ h).1
  · have hdigits := (isDigits_replicate_append (d.point.toNat - d.digits.length) h).2
    simpa [Layout.sql] using Unsigned.whole hdigits
  · refine .fraction ⟨?_, fun c hc => h.2 c (List.mem_of_mem_take hc)⟩
      ⟨?_, fun c hc => h.2 c (List.mem_of_mem_drop hc)⟩
    · rw [ne_eq, List.take_eq_nil_iff, not_or]
      exact ⟨by omega, h.1⟩
    · rw [ne_eq, List.drop_eq_nil_iff]
      omega

theorem unsigned_write {m : Nat} (e : Int) (hlt : m < 2 ^ 53) :
    Unsigned (if m = 0 then '0' :: Layout.sql.wholeTail
      else Layout.sql.decimal (shortest Layout.sql.tie m e)) := by
  split_ifs with hzero
  · exact .whole isDigits_zero
  · exact Layout.unsigned_place ⟨digits_shortest_ne_nil _ e (Nat.pos_of_ne_zero hzero) hlt,
      fun c hc => isDigit_of_mem_shortest hc⟩

/-- A finite number is one literal. -/
theorem scalar_write (negative : Bool) {m : Nat} (e : Int) (hlt : m < 2 ^ 53) :
    Scalar (Layout.sql.write negative m e) := by
  unfold Layout.write
  cases negative with
  | false => exact .number (unsigned_write e hlt)
  | true => exact .negative (unsigned_write e hlt)

/-- A datum has 53 significant bits. -/
theorem significand_lt_of_view {x : Binary64} {negative : Bool} {m : Nat} {e : Int}
    (h : x.view = .finite negative m e) : m < 2 ^ 53 := by
  have hfraction : x.bits.toNat % Nat.pow 2 52 < 2 ^ 52 := Nat.mod_lt _ (by decide)
  have hleading : leadingBit = 2 ^ 52 := rfl
  unfold view at h
  dsimp only at h
  split_ifs at h
  · obtain ⟨-, rfl, -⟩ := View.finite.inj h
    omega
  · obtain ⟨-, rfl, -⟩ := View.finite.inj h
    omega

end Binary64

theorem isDigits_ofNat (n : Nat) : IsDigits (Text.ofNat n) :=
  ⟨Value.ofNat_ne_nil n, fun _ hc => Text.isDigit_of_mem_ofNat hc⟩

/-- An integer is one literal. -/
theorem scalar_ofInt (n : Int) : Scalar (Text.ofInt n) := by
  cases n with
  | ofNat n => exact .number (.whole (isDigits_ofNat n))
  | negSucc n => exact .negative (.whole (isDigits_ofNat (n + 1)))

end SqlCompose
