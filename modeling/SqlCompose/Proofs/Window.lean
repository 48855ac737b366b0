import SqlCompose.Clause.RowLimit
import SqlCompose.Proofs.OperandList
import SqlCompose.Proofs.Reading.Digits

/-!
# Windows of a result

A `LIMIT` lets a window of the rows pass: `LIMIT a, b` skips `a` rows and
takes `b` of the others, `LIMIT n OFFSET m` skips `m` and takes `n`, `LIMIT n`
skips none, and without a clause every row passes.

A page of rows, an offset with a count, can be asked for in two forms: as a
pair of numbers with the offset first, or by the names of the two.

* `Window.read` reads a clause, and `Window.SameRows` compares what two
  windows let pass of every result.
* `read_clause_paged` says that the named form is the page.  The pair tests
  its first number where the page depends on its second, so
  `read_clause_pair` has a case for each sign of both.

Main result: `page_forms_agree_iff`.
-/

namespace SqlCompose

/-- The rows of a result that a statement lets pass. -/
structure Window where
  /-- How many rows are skipped. -/
  skip : Nat := 0
  /-- How many of the others pass; all of them if there is no number. -/
  take : Option Nat := none
  deriving DecidableEq

namespace Window

/-- The rows that pass. -/
def rows {α : Type} (w : Window) (result : List α) : List α :=
  match w.take with
  | none => result.drop w.skip
  | some n => (result.drop w.skip).take n

/-- Whether two windows let the same rows pass, whatever the result is. -/
def SameRows (w w' : Window) : Prop :=
  ∀ {α : Type} (result : List α), w.rows result = w'.rows result

/-- The number that a text of nothing but digits denotes. -/
def number? (digits : Text) : Option Nat := (Value.readDigits digits).map Int.toNat

/-- The window that the body of a clause asks for: `n`, `a, b` or `n OFFSET m`. -/
def readBody (body : Text) : Option Window := do
  let first ← number? (body.takeWhile Char.isDigit)
  match body.dropWhile Char.isDigit with
  | [] => some { take := some first }
  | ',' :: ' ' :: digits =>
    (number? digits).map fun second => { skip := first, take := some second }
  | rest => do
    let digits ← (lit " OFFSET ").isPrefixOf? rest
    (number? digits).map fun second => { skip := second, take := some first }

/-- The window that a clause asks for; no clause asks for all rows. -/
def read (clause : Text) : Option Window :=
  if clause = [] then some {} else ((lit "LIMIT ").isPrefixOf? clause).bind readBody

example : read "LIMIT 2, 3" = some { skip := 2, take := some 3 } ∧
    read "LIMIT 3 OFFSET 2" = read "LIMIT 2, 3" ∧ read "LIMIT 3," = none := by decide

/-! ## Windows that differ -/

/-- Some result has more rows than any number. -/
theorem not_sameRows_all (n : Nat) : ¬SameRows {} { take := some n } := by
  intro h
  have hlength := congrArg List.length (h (List.replicate (n + 1) ()))
  simp only [rows, List.drop_zero, List.length_take, List.length_replicate] at hlength
  omega

theorem SameRows.symm {w w' : Window} (h : SameRows w w') : SameRows w' w :=
  fun result => (h result).symm

/-! ## Reading a body -/

theorem number?_ofNat (n : Nat) : number? (Text.ofNat n) = some n := by
  rw [number?, Value.readDigits_ofNat, Option.map_some, Int.toNat_natCast]

/-- The digits of a number end where something else begins. -/
theorem span_ofNat (n : Nat) {r : Text} (h : ∀ c ∈ r.head?, c.isDigit = false) :
    (Text.ofNat n ++ r).takeWhile Char.isDigit = Text.ofNat n ∧
      (Text.ofNat n ++ r).dropWhile Char.isDigit = r :=
  Text.span_digits (fun _ => Text.isDigit_of_mem_ofNat) h

theorem readBody_count (n : Nat) : readBody (Text.ofNat n) = some { take := some n } := by
  obtain ⟨htake, hdrop⟩ := span_ofNat n (r := []) (by simp)
  rw [List.append_nil] at htake hdrop
  rw [readBody, htake, hdrop, number?_ofNat]
  rfl

theorem readBody_pair (n m : Nat) :
    readBody (Text.ofNat n ++ lit ", " ++ Text.ofNat m) = some { skip := n, take := some m } := by
  obtain ⟨htake, hdrop⟩ := span_ofNat n (r := ',' :: ' ' :: Text.ofNat m) (by simp)
  have htext : Text.ofNat n ++ lit ", " ++ Text.ofNat m =
      Text.ofNat n ++ ',' :: ' ' :: Text.ofNat m := by simp [lit]
  rw [htext, readBody, htake, hdrop, number?_ofNat]
  simp [number?_ofNat]

theorem readBody_offset (n m : Nat) :
    readBody (Text.ofNat n ++ lit " OFFSET " ++ Text.ofNat m) =
      some { skip := m, take := some n } := by
  obtain ⟨htake, hdrop⟩ := span_ofNat n (r := lit " OFFSET " ++ Text.ofNat m) (by simp [lit])
  have hahead : (lit " OFFSET ").isPrefixOf? (lit " OFFSET " ++ Text.ofNat m) =
      some (Text.ofNat m) := List.isPrefixOf?_eq_some_iff_append_eq.2 rfl
  rw [List.append_assoc, readBody, htake, hdrop, number?_ofNat]
  simp only [Option.bind_eq_bind, Option.bind_some]
  split
  · rename_i hnil
    simp [lit] at hnil
  · rename_i hcomma
    simp [lit] at hcomma
  · rw [hahead, Option.bind_some, number?_ofNat, Option.map_some]

end Window

namespace RowLimit

variable {n offset count : Int64}

/-- A positive count is written in digits alone. -/
theorem countText_of_pos (h : 0 < n) : countText n = Text.ofNat n.toInt.toNat := by
  have hpos : 0 < n.toInt := Int64.lt_iff_toInt_lt.1 h
  obtain ⟨k, hk⟩ := Int.eq_ofNat_of_zero_le hpos.le
  rw [countText, hk]
  rfl

/-- A body that says something is read behind its keyword. -/
theorem read_clause_of_body {l : RowLimit} (h : l.body ≠ []) :
    Window.read (clause (some l)) = Window.readBody l.body := by
  have hclause : clause (some l) = lit "LIMIT " ++ l.body := by
    rw [clause, Option.map_some, Option.getD_some, Text.clause, List.isEmpty_eq_false_iff.2 h]
    simp [lit]
  have hahead : (lit "LIMIT ").isPrefixOf? (lit "LIMIT " ++ l.body) = some l.body :=
    List.isPrefixOf?_eq_some_iff_append_eq.2 rfl
  rw [hclause, Window.read, if_neg (by simp [lit]), hahead, Option.bind_some]

theorem clause_eq_nil_iff {l : RowLimit} : clause (some l) = [] ↔ l.body = [] := by
  rw [clause, Option.map_some, Option.getD_some, Text.clause]
  split <;> simp_all

theorem countText_ne_nil (n : Int64) : countText n ≠ [] := Value.ofInt_ne_nil n.toInt

theorem body_paged (offset count : Int64) :
    (paged count offset).body =
      if 0 < count then
        if 0 < offset then countText count ++ " OFFSET " ++ countText offset else countText count
      else [] := rfl

theorem body_pair (offset count : Int64) :
    (sequence [offset, count]).body =
      if 0 < offset then
        if 0 < count then countText offset ++ ", " ++ countText count else countText offset
      else [] := rfl

/-- By name, the count decides whether there is a clause. -/
theorem body_paged_eq_nil_iff : (paged count offset).body = [] ↔ count ≤ 0 := by
  rw [body_paged, ← Int64.not_lt]
  split_ifs with hcount hoffset <;> simp [hcount, countText_ne_nil]

/-- As a pair, the offset decides it. -/
theorem body_pair_eq_nil_iff : (sequence [offset, count]).body = [] ↔ offset ≤ 0 := by
  rw [body_pair, ← Int64.not_lt]
  split_ifs with hoffset hcount <;> simp [hoffset, countText_ne_nil]

/-- The page that an offset and a count ask for.  An offset that is not positive skips nothing,
a count that is not positive is no limit at all. -/
def page (offset count : Int64) : Window :=
  if 0 < count then { skip := offset.toInt.toNat, take := some count.toInt.toNat } else {}

theorem toNat_eq_zero (h : ¬0 < n) : n.toInt.toNat = 0 := by
  have hneg : n.toInt ≤ 0 := Int64.le_iff_toInt_le.1 (Int64.not_lt.1 h)
  omega

/-- By name, an offset and a count are the page that they ask for. -/
theorem read_clause_paged (offset count : Int64) :
    Window.read (clause (some (paged count offset))) = some (page offset count) := by
  by_cases hcount : 0 < count
  · have hbody : (paged count offset).body ≠ [] := by
      rwa [ne_eq, body_paged_eq_nil_iff, Int64.not_le]
    rw [read_clause_of_body hbody, body_paged, page, if_pos hcount, if_pos hcount,
      countText_of_pos hcount]
    by_cases hoffset : 0 < offset
    · rw [if_pos hoffset, countText_of_pos hoffset, Window.readBody_offset]
    · rw [if_neg hoffset, Window.readBody_count, toNat_eq_zero hoffset]
  · have hnil : clause (some (paged count offset)) = [] :=
      clause_eq_nil_iff.2 (body_paged_eq_nil_iff.2 (Int64.not_lt.1 hcount))
    rw [hnil, page, if_neg hcount]
    rfl

/-- As a pair, an offset that is not positive asks for all rows whatever the count is, and in
front of a count that is not positive the offset is taken for the count. -/
theorem read_clause_pair (offset count : Int64) :
    Window.read (clause (some (sequence [offset, count]))) =
      some (if 0 < offset then
        if 0 < count then page offset count else { take := some offset.toInt.toNat }
      else {}) := by
  by_cases hoffset : 0 < offset
  · have hbody : (sequence [offset, count]).body ≠ [] := by
      rwa [ne_eq, body_pair_eq_nil_iff, Int64.not_le]
    rw [read_clause_of_body hbody, body_pair, if_pos hoffset, if_pos hoffset,
      countText_of_pos hoffset]
    by_cases hcount : 0 < count
    · rw [if_pos hcount, if_pos hcount, countText_of_pos hcount, Window.readBody_pair, page,
        if_pos hcount]
    · rw [if_neg hcount, if_neg hcount, Window.readBody_count]
  · have hnil : clause (some (sequence [offset, count])) = [] :=
      clause_eq_nil_iff.2 (body_pair_eq_nil_iff.2 (Int64.not_lt.1 hoffset))
    rw [hnil, if_neg hoffset]
    rfl

/-- The pair lets the rows of the page pass exactly if both numbers ask for the same: a clause
or none. -/
theorem sameRows_page_iff (offset count : Int64) :
    Window.SameRows
      (if 0 < offset then
        if 0 < count then page offset count else { take := some offset.toInt.toNat }
      else {}) (page offset count) ↔ (0 < offset ↔ 0 < count) := by
  by_cases hoffset : 0 < offset
  · by_cases hcount : 0 < count
    · rw [if_pos hoffset, if_pos hcount]
      exact iff_of_true (fun _ => rfl) (iff_of_true hoffset hcount)
    · rw [if_pos hoffset, if_neg hcount, page, if_neg hcount]
      exact iff_of_false (fun h => Window.not_sameRows_all _ h.symm) fun h => hcount (h.1 hoffset)
  · by_cases hcount : 0 < count
    · rw [if_neg hoffset, page, if_pos hcount, toNat_eq_zero hoffset]
      exact iff_of_false (Window.not_sameRows_all _) fun h => hoffset (h.2 hcount)
    · rw [if_neg hoffset, page, if_neg hcount]
      exact iff_of_true (fun _ => rfl) (iff_of_false hoffset hcount)

/-- By name, an offset and a count always let the rows of their page pass, and there is no
clause exactly for a count that is not positive.  As a pair there is none exactly for an offset
that is not positive, and the rows are those of the page exactly if both numbers are positive or
neither is. -/
theorem page_forms_agree_iff (offset count : Int64) :
    Window.read (clause (some (paged count offset))) = some (page offset count) ∧
    (clause (some (paged count offset)) = [] ↔ count ≤ 0) ∧
    (clause (some (sequence [offset, count])) = [] ↔ offset ≤ 0) ∧
    ∃ w, Window.read (clause (some (sequence [offset, count]))) = some w ∧
      (w.SameRows (page offset count) ↔ (0 < offset ↔ 0 < count)) :=
  ⟨read_clause_paged offset count,
    clause_eq_nil_iff.trans body_paged_eq_nil_iff,
    clause_eq_nil_iff.trans body_pair_eq_nil_iff,
    _, read_clause_pair offset count, sameRows_page_iff offset count⟩

/-- As a pair, a first page of two rows lets all rows pass, and with a count of zero as many as
should be skipped. -/
theorem pair_of_zero :
    clause (some (sequence [0, 2])) = [] ∧ clause (some (paged 2 0)) = lit "LIMIT 2" ∧
    ¬Window.SameRows {} { take := some 2 } ∧
    clause (some (sequence [3, 0])) = lit "LIMIT 3" ∧ clause (some (paged 0 3)) = [] ∧
    ¬Window.SameRows { take := some 3 } {} := by
  refine ⟨by decide +kernel, by decide +kernel, Window.not_sameRows_all 2, by decide +kernel,
    by decide +kernel, ?_⟩
  exact fun h => Window.not_sameRows_all 3 h.symm

end RowLimit

end SqlCompose
