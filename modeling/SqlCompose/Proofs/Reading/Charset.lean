import Mathlib
import SqlCompose.Binary64.Layout
import SqlCompose.Calendar
import SqlCompose.Text.Blank

/-!
# The characters of numbers, days and times

A number is written as a sign and digits with at most one point between
them, a day or a time with letters, digits and a few marks.  None of them
can hold a quote, a backslash or a bracket, and a minus sign stands only in
front of a number.
-/

namespace SqlCompose

namespace Text

theorem isDigit_of_mem_ofNat {n : Nat} {c : Char} (h : c ∈ ofNat n) : c.isDigit = true :=
  Nat.isDigit_of_mem_toDigits (by decide) (by decide) h

theorem isAlphanum_digitChar : ∀ k < 16, (Nat.digitChar k).isAlphanum = true := by decide

theorem isAlphanum_of_mem_fixedDigits {base width n : Nat} (h0 : 0 < base) (h16 : base ≤ 16)
    {c : Char} (h : c ∈ fixedDigits base width n) : c.isAlphanum = true := by
  induction width generalizing n with
  | zero => simp [fixedDigits] at h
  | succ width ih =>
    rw [fixedDigits, List.mem_append, List.mem_singleton] at h
    rcases h with h | rfl
    · exact ih h
    · have := Nat.mod_lt n h0
      exact isAlphanum_digitChar _ (by omega)

end Text

/-- The characters of a number without its sign. -/
def isNumeral (c : Char) : Bool := c.isDigit || c == '.'

theorem toNat_of_isNumeral {c : Char} (h : isNumeral c = true) : 46 ≤ c.toNat ∧ c.toNat ≤ 57 := by
  simp only [isNumeral, Bool.or_eq_true, beq_iff_eq] at h
  rcases h with h | rfl
  · have hdigit : 48 ≤ c.toNat ∧ c.toNat ≤ 57 := Char.isDigit_iff_toNat.1 h
    omega
  · decide

theorem toNat_of_isAlpha {c : Char} (h : c.isAlpha = true) :
    65 ≤ c.toNat ∧ c.toNat ≤ 90 ∨ 97 ≤ c.toNat ∧ c.toNat ≤ 122 := by
  simpa [Char.isAlpha, Char.isUpper, Char.isLower, UInt32.le_iff_toNat_le] using h

theorem isBlank_of_isAlpha {c : Char} (h : c.isAlpha = true) : isBlank c = false := by
  have hrange := toNat_of_isAlpha h
  simp only [isBlank, Bool.or_eq_false_iff, Bool.and_eq_false_iff, decide_eq_false_iff_not,
    beq_eq_false_iff_ne]
  omega

theorem isBlank_of_isNumeral {c : Char} (h : isNumeral c = true) : isBlank c = false := by
  have hrange := toNat_of_isNumeral h
  simp only [isBlank, Bool.or_eq_false_iff, Bool.and_eq_false_iff, decide_eq_false_iff_not,
    beq_eq_false_iff_ne]
  omega

theorem Text.ofInt_eq (n : Int) :
    ∃ digits, Text.ofInt n = (if n < 0 then ['-'] else []) ++ digits ∧
      ∀ c ∈ digits, isNumeral c = true := by
  cases n with
  | ofNat n =>
    refine ⟨Text.ofNat n, by simp [Text.ofInt], fun c hc => ?_⟩
    simp [isNumeral, Text.isDigit_of_mem_ofNat hc]
  | negSucc n =>
    refine ⟨Text.ofNat (n + 1), by simp [Text.ofInt, Int.negSucc_lt_zero], fun c hc => ?_⟩
    simp [isNumeral, Text.isDigit_of_mem_ofNat hc]

namespace Binary64

theorem isDigit_of_mem_shortest {tie : Tie} {m : Nat} {e : Int} {c : Char}
    (h : c ∈ (shortest tie m e).digits) : c.isDigit = true := by
  unfold shortest at h
  dsimp only at h
  split at h
  · rename_i n s _
    rw [dropTrailingZeros, List.mem_reverse] at h
    exact Text.isDigit_of_mem_ofNat (List.mem_reverse.1 ((List.dropWhile_suffix _).subset h))
  · simp at h

theorem isNumeral_of_mem_place {d : Decimal} (hd : ∀ c ∈ d.digits, c.isDigit = true) {c : Char}
    (h : c ∈ Layout.sql.place d) : isNumeral c = true := by
  have hdigit : ∀ x ∈ d.digits, isNumeral x = true := fun x hx => by simp [isNumeral, hd x hx]
  have hzero : ∀ k, ∀ x ∈ List.replicate k '0', isNumeral x = true := by
    intro k x hx
    rw [List.eq_of_mem_replicate hx]
    decide
  unfold Layout.place at h
  split_ifs at h
  · rcases List.mem_append.1 h with h | h
    · rcases List.mem_append.1 h with h | h
      · fin_cases h <;> decide
      · exact hzero _ c h
    · exact hdigit c h
  · rcases List.mem_append.1 h with h | h
    · rcases List.mem_append.1 h with h | h
      · exact hdigit c h
      · exact hzero _ c h
    · simp [Layout.sql] at h
  · rcases List.mem_append.1 h with h | h
    · exact hdigit c (List.mem_of_mem_take h)
    · rcases List.mem_cons.1 h with rfl | h
      · decide
      · exact hdigit c (List.mem_of_mem_drop h)

/-- In SQL a finite number is a sign and characters of a numeral. -/
theorem Layout.sql_write_eq (negative : Bool) (m : Nat) (e : Int) :
    ∃ digits, Layout.sql.write negative m e = (if negative then ['-'] else []) ++ digits ∧
      ∀ c ∈ digits, isNumeral c = true := by
  refine ⟨_, rfl, fun c hc => ?_⟩
  split at hc
  · obtain rfl : c = '0' := by simpa [Layout.sql] using hc
    decide
  · exact isNumeral_of_mem_place (fun d hd => isDigit_of_mem_shortest hd) hc

end Binary64

/-- The characters of days and times. -/
def isCalendarChar (c : Char) : Bool := c.isAlphanum || c ∈ ['-', '+', ':', '.', ' ']

theorem isCalendarChar_of_mem_fixedDigits {width n : Nat} {c : Char}
    (h : c ∈ Text.fixedDigits 10 width n) : isCalendarChar c = true := by
  simp [isCalendarChar, Text.isAlphanum_of_mem_fixedDigits (by decide) (by decide) h]

theorem Date.isCalendarChar_of_mem_yearText {year : Int} {c : Char} (h : c ∈ Date.yearText year) :
    isCalendarChar c = true := by
  have hpadded : ∀ k, ∀ x ∈ List.replicate k '0' ++ Text.ofNat year.natAbs,
      isCalendarChar x = true := by
    intro k x hx
    rcases List.mem_append.1 hx with hx | hx
    · rw [List.eq_of_mem_replicate hx]
      decide
    · simp [isCalendarChar, Char.isAlphanum, Text.isDigit_of_mem_ofNat hx]
  unfold Date.yearText at h
  dsimp only at h
  split_ifs at h
  · rcases List.mem_cons.1 h with rfl | h
    · decide
    · exact hpadded _ c h
  · rcases List.mem_cons.1 h with rfl | h
    · decide
    · exact hpadded _ c h
  · exact hpadded _ c h

theorem Date.isCalendarChar_of_mem_render {d : Date} {c : Char} (h : c ∈ d.render) :
    isCalendarChar c = true := by
  simp only [Date.render, List.append_assoc, List.mem_append, List.mem_cons,
    List.cons_append] at h
  rcases h with h | rfl | h | rfl | h
  · exact Date.isCalendarChar_of_mem_yearText h
  · decide
  · exact isCalendarChar_of_mem_fixedDigits h
  · decide
  · exact isCalendarChar_of_mem_fixedDigits h

theorem TimeOfDay.isCalendarChar_of_mem_fractionText {nanos : Nat} {c : Char}
    (h : c ∈ TimeOfDay.fractionText nanos) : isCalendarChar c = true := by
  unfold TimeOfDay.fractionText at h
  split_ifs at h
  · simp at h
  all_goals
    rcases List.mem_cons.1 h with rfl | h
    · decide
    · exact isCalendarChar_of_mem_fixedDigits h

theorem TimeOfDay.isCalendarChar_of_mem_render {t : TimeOfDay} {c : Char} (h : c ∈ t.render) :
    isCalendarChar c = true := by
  simp only [TimeOfDay.render, List.append_assoc, List.mem_append, List.mem_cons,
    List.cons_append] at h
  rcases h with h | rfl | h | rfl | h | h
  · exact isCalendarChar_of_mem_fixedDigits h
  · decide
  · exact isCalendarChar_of_mem_fixedDigits h
  · decide
  · exact isCalendarChar_of_mem_fixedDigits h
  · exact TimeOfDay.isCalendarChar_of_mem_fractionText h

theorem Timestamp.isCalendarChar_of_mem_render {t : Timestamp} {c : Char} (h : c ∈ t.render) :
    isCalendarChar c = true := by
  rw [Timestamp.render, List.mem_append, List.mem_cons] at h
  rcases h with h | rfl | h
  · exact Date.isCalendarChar_of_mem_render h
  · decide
  · exact TimeOfDay.isCalendarChar_of_mem_render h

end SqlCompose
