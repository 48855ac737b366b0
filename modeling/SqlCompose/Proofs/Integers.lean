import SqlCompose.Clause.Payload
import SqlCompose.Proofs.Filter.Paths
import SqlCompose.Proofs.Position
import SqlCompose.Proofs.Reading.Charset
import SqlCompose.Value.OfInteger

/-!
# Integers beyond the signed word

An integer above the signed 64-bit range has no integer operand; its digits are
kept as verbatim SQL.  Verbatim SQL takes other ways than a literal: an entry of
a condition may stand without its field if the text starts with it.  None of
this is to be seen in what is written.

* `operand_eq_ofWord`: the operand depends on the number only, not on the type
  that holds it.  `exists_of_numeral` says which numbers of JSON are meant.
* `positionalParts_of_tuple` is how a row by position is written among others.
* `WrittenAs` says what it is for an operand to be written as one text wherever
  operands are written; `WrittenAs.of_quote` says which operands are.

Main result: `writtenAs_decimal`.
-/

namespace SqlCompose

/-! ## The operand of a number -/

namespace Text

theorem ofNat_eq_toString (n : Nat) : ofNat n = lit (toString n) := by
  rw [lit, ofNat, Nat.toString_eq_repr, Nat.repr, String.toList_ofList]

theorem ofInt_eq_toString (n : Int) : ofInt n = lit (toString n) := by
  cases n with
  | ofNat n => exact ofNat_eq_toString n
  | negSucc n =>
    simp only [ofInt, ofNat_eq_toString, lit]
    simp [toString, Int.repr]

/-- A number is written without blanks. -/
theorem space_notMem_ofInt (n : Int) : ' ' ∉ ofInt n := by
  have hdigits : ∀ m, ' ' ∉ ofNat m := by
    intro m hmem
    exact absurd (isDigit_of_mem_ofNat hmem) (by decide)
  cases n with
  | ofNat n => exact hdigits n
  | negSucc n =>
    rw [ofInt, List.mem_cons, not_or]
    exact ⟨by decide, hdigits (n + 1)⟩

end Text

namespace Value

variable {n : Int}

theorem ofWord_of_lt (hlower : -2 ^ 63 ≤ n) (hupper : n < 2 ^ 63) :
    ofWord n = .int (Int64.ofInt n) := by
  have hmax : Int64.maxValue.toInt.toNat = 2 ^ 63 - 1 := by decide
  rw [ofWord]
  split
  · rfl
  · have hsize : n.toNat < 2 ^ 64 := by omega
    rw [ofUInt64, UInt64.toNat_ofNat_of_lt' hsize, hmax, if_pos (by omega),
      ← Int64.ofInt_eq_ofNat, Int.toNat_of_nonneg (by omega)]

theorem ofWord_of_le (hlower : 2 ^ 63 ≤ n) (hupper : n < 2 ^ 64) :
    ofWord n = .raw (Text.ofInt n) := by
  have hmax : Int64.maxValue.toInt.toNat = 2 ^ 63 - 1 := by decide
  have hsize : n.toNat < 2 ^ 64 := by omega
  obtain ⟨m, rfl⟩ := Int.eq_ofNat_of_zero_le (a := n) (by omega)
  rw [ofWord, if_neg (by omega), ofUInt64, UInt64.toNat_ofNat_of_lt' hsize, hmax,
    if_neg (by omega)]
  rfl

end Value

namespace Integer

theorem lower (x : Integer) : -2 ^ 63 ≤ x.toInt := by
  cases x with
  | int8 n | int16 n | int32 n | int64 n =>
    have hsigned := n.le_toInt
    simp only [toInt]
    omega
  | uint16 n | uint32 n | uint64 n | size n =>
    simp only [toInt]
    omega
  | json n lower upper => exact lower

theorem upper (x : Integer) : x.toInt < 2 ^ 64 := by
  cases x with
  | int8 n | int16 n | int32 n | int64 n =>
    have hsigned := n.toInt_lt
    simp only [toInt]
    omega
  | uint16 n | uint32 n | uint64 n =>
    have hsize := n.toNat_lt
    simp only [toInt]
    omega
  | size n =>
    have hsize := n.toUInt64.toNat_lt
    rw [USize.toNat_toUInt64] at hsize
    simp only [toInt]
    omega
  | json n lower upper => exact upper

/-- The operand depends on the number only, not on the type that holds it. -/
theorem operand_eq_ofWord (x : Integer) : x.operand = .ofWord x.toInt := by
  have hsigned : ∀ n : Int64, Value.int n = .ofWord n.toInt := by
    intro n
    rw [Value.ofWord_of_lt n.le_toInt n.toInt_lt, Int64.ofInt_toInt]
  have hshort : ∀ n : Nat, n < 2 ^ 63 → Value.int (Int64.ofNat n) = .ofWord n := by
    intro n hn
    rw [hsigned, Int64.toInt_ofNat_of_lt hn]
  have hunsigned : ∀ n : UInt64, Value.ofUInt64 n = .ofWord n.toNat := by
    intro n
    rw [Value.ofWord, if_neg (by omega), Int.toNat_natCast, UInt64.ofNat_toNat]
  cases x with
  | int8 n => rw [operand, hsigned, Int8.toInt_toInt64, toInt]
  | int16 n => rw [operand, hsigned, Int16.toInt_toInt64, toInt]
  | int32 n => rw [operand, hsigned, Int32.toInt_toInt64, toInt]
  | int64 n => exact hsigned n
  | uint16 n | uint32 n =>
    have hsize := n.toNat_lt
    exact hshort n.toNat (by omega)
  | uint64 n => exact hunsigned n
  | size n => rw [operand, hunsigned, USize.toNat_toUInt64, toInt]
  | json n lower upper => rfl

/-- The number literals that JSON holds as integers are among the integers. -/
theorem exists_of_numeral {literal : Json.Numeral} {n : Int} (h : literal.toInt? = some n) :
    ∃ x : Integer,
      x.toInt = n ∧ (Json.ofNumeral? literal).map Value.ofJson = some x.operand := by
  have hmin : Int64.minValue.toInt = -2 ^ 63 := by decide
  have hsize : UInt64.size = 2 ^ 64 := rfl
  have hrange : Int64.minValue.toInt ≤ n ∧ n < UInt64.size := by
    have hpow : Nat.pow 2 63 = 2 ^ 63 := rfl
    rw [Json.Numeral.toInt?] at h
    split at h
    · dsimp only at h
      split at h
      · split at h
        · obtain rfl := Option.some.inj h
          omega
        · cases h
      · split at h
        · obtain rfl := Option.some.inj h
          omega
        · cases h
    · cases h
  exact ⟨.json n hrange.1 hrange.2, rfl, by rw [Json.ofNumeral?, h]; rfl⟩

theorem operand_cases (x : Integer) :
    (x.operand = .int (Int64.ofInt x.toInt) ∧ x.toInt < 2 ^ 63) ∨
      (x.operand = .raw (Text.ofInt x.toInt) ∧ 2 ^ 63 ≤ x.toInt) := by
  rw [operand_eq_ofWord]
  by_cases hfits : x.toInt < 2 ^ 63
  · exact .inl ⟨Value.ofWord_of_lt x.lower hfits, hfits⟩
  · exact .inr ⟨Value.ofWord_of_le (by omega) x.upper, by omega⟩

theorem quote_operand (x : Integer) : x.operand.quote = Text.ofInt x.toInt := by
  rcases x.operand_cases with ⟨hint, hfits⟩ | ⟨hraw, -⟩
  · rw [hint, Value.quote, Int64.toInt_ofInt_of_le x.lower hfits]
  · rw [hraw, Value.quote]

theorem isList_operand (x : Integer) : x.operand.isList = false := by
  rcases x.operand_cases with ⟨h, -⟩ | ⟨h, -⟩ <;> rw [h] <;> rfl

end Integer

/-! ## Where operands are written -/

namespace Test

/-- A test with a place for an operand. -/
inductive Place where
  | compared (op : Text)
  | pattern
  | among
  | lowEnd (high : Value)
  | highEnd (low : Value)

namespace Place

/-- The test with the operand in its place. -/
def fill (v : Value) : Place → Test
  | compared op => .compare op v
  | pattern => .like v
  | among => .among v
  | lowEnd high => .between v high
  | highEnd low => .between low v

/-- What is written in front of the operand. -/
def front (negated : Bool) (field : Text) : Place → Text
  | compared op => Predicate.notWord negated ++ field ++ ' ' :: op ++ lit " "
  | pattern => field ++ ' ' :: Predicate.notWord negated ++ lit "LIKE "
  | among => field ++ ' ' :: Predicate.notWord negated ++ lit "IN ("
  | lowEnd _ => field ++ ' ' :: Predicate.notWord negated ++ lit "BETWEEN "
  | highEnd low =>
    field ++ ' ' :: Predicate.notWord negated ++ lit "BETWEEN " ++ low.quote ++ lit " AND "

/-- What is written behind the operand. -/
def back : Place → Text
  | compared _ | pattern | highEnd _ => []
  | among => lit ")"
  | lowEnd high => lit " AND " ++ high.quote

theorem needsField_fill (q : Place) (v : Value) : (q.fill v).needsField = true := by
  cases q <;> rfl

theorem render_fill (q : Place) (negated : Bool) (field : Text) (v : Value) :
    (Predicate.mk negated (q.fill v)).render field =
      q.front negated field ++ v.quote ++ q.back := by
  cases q <;> simp [Predicate.render, fill, front, back, lit]

end Place

end Test

namespace InsertPayload

/-- A payload with a place for an operand. -/
inductive Place where
  | row (before : Row) (field : Text) (behind : Row)
  | rows (above : List Row) (before : Row) (field : Text) (behind : Row) (below : List Row)
  | tuple (before behind : List Value)
  | tuples (above : List (List Value)) (before behind : List Value) (below : List (List Value))

namespace Place

/-- The payload with the operand in its place. -/
def fill (v : Value) : Place → InsertPayload
  | row before field behind => .row (before ++ (field, v) :: behind)
  | rows above before field behind below =>
    .rows (above ++ (before ++ (field, v) :: behind) :: below)
  | tuple before behind => .tuple (before ++ v :: behind)
  | tuples above before behind below => .tuples (above ++ (before ++ v :: behind) :: below)

end Place

section Congruence

variable {v w : Value} (h : v.quote = w.quote)
include h

theorem cell_congr (before : Row) (field : Text) (behind : Row) (name : Text) :
    cell (before ++ (field, v) :: behind) name = cell (before ++ (field, w) :: behind) name := by
  rw [cell, cell, List.lookup_append, List.lookup_append, List.lookup_cons, List.lookup_cons]
  cases before.lookup name <;> cases name == field <;> simp [h]

theorem namedParts_congr (above : List Row) (before : Row) (field : Text) (behind : Row)
    (below : List Row) :
    namedParts (above ++ (before ++ (field, v) :: behind) :: below) =
      namedParts (above ++ (before ++ (field, w) :: behind) :: below) := by
  have hfields : fieldList (above ++ (before ++ (field, v) :: behind) :: below) =
      fieldList (above ++ (before ++ (field, w) :: behind) :: below) := by
    simp [fieldList]
  rw [namedParts, namedParts, hfields, List.map_append, List.map_append, List.map_cons,
    List.map_cons, funext (cell_congr h before field behind)]

theorem positionalParts_congr (above : List (List Value)) (before behind : List Value)
    (below : List (List Value)) :
    positionalParts (above ++ (before ++ v :: behind) :: below) =
      positionalParts (above ++ (before ++ w :: behind) :: below) := by
  simp [positionalParts, h]

/-- Operands that are written the same make the same payload. -/
theorem Place.parts_fill_congr (q : Place) : (q.fill v).parts = (q.fill w).parts := by
  cases q with
  | row before field behind => exact namedParts_congr h [] before field behind []
  | rows above before field behind below => exact namedParts_congr h above before field behind below
  | tuple before behind => exact positionalParts_congr h [] before behind []
  | tuples above before behind below => exact positionalParts_congr h above before behind below

end Congruence

/-- Rows by position are written one by one as soon as one of them has a cell. -/
theorem positionalParts_of_tuple (above : List (List Value)) {cells : List Value}
    (below : List (List Value)) (hne : cells ≠ []) :
    positionalParts (above ++ cells :: below) =
      ⟨[], Text.joinWith ", " (above.map (fun row => tupleText (row.map Value.quote)) ++
        tupleText (cells.map Value.quote) ::
          below.map fun row => tupleText (row.map Value.quote))⟩ := by
  have hsome : (above ++ cells :: below).all List.isEmpty = false := by
    rw [List.all_eq_false]
    exact ⟨cells, by simp, by simpa using hne⟩
  rw [positionalParts, hsome, if_neg Bool.false_ne_true, List.map_append, List.map_cons]

end InsertPayload

/-- An operand is written as a text wherever operands are written, with the same around it as
around any other literal. -/
structure WrittenAs (v : Value) (t : Text) : Prop where
  /-- A literal, alone or in a list at any depth. -/
  literal (p : Value.Position) : (p.fill v).quote = p.front ++ t ++ p.back
  /-- What a field has to equal. -/
  entry (field : Text) : (Operand.value v).render field = field ++ lit " = " ++ t
  /-- An entry of a condition. -/
  mapping (before : List (Text × Operand)) (field : Text) (behind : List (Text × Operand)) :
    (Condition.fields (before ++ (field, .value v) :: behind)).parts =
      (Condition.fields before).parts ++
        (field ++ lit " = " ++ t) :: (Condition.fields behind).parts
  /-- A condition around an entry: it is the one in which the entry is written by hand. -/
  surrounded (field : Text) (s : Surrounding) :
    SaysSame (s.fill (.operand field v))
      (s.fill (.operand field (.raw (field ++ lit " = " ++ t))))
  /-- A member of a list that a field has to be among. -/
  listed (field : Text) (before : List Value) (inner : Value.Position) (behind : List Value) :
    (Operand.value ((Value.Position.member before inner behind).fill v)).render field =
      field ++ lit " IN (" ++ (Value.Position.member before inner behind).front ++ t ++
        (Value.Position.member before inner behind).back ++ lit ")"
  /-- An operand of a test, for each field that says something. -/
  criterion (bound context : Option Text) (field : Text) (h : bound.or context = some field)
    (hsolid : field.blank = false) (negated : Bool) (q : Test.Place) (p : Value.Position) :
    (Criterion.mk bound ⟨negated, q.fill (p.fill v)⟩).render context =
      q.front negated field.trim ++ p.front ++ t ++ p.back ++ q.back
  /-- A cell of a row with named fields. -/
  cell (row : Row) (field : Text) (p : Value.Position) (h : row.lookup field = some (p.fill v)) :
    InsertPayload.cell row field = p.front ++ t ++ p.back
  /-- A cell of a row by position, in a payload of this row alone. -/
  tuple (before : List Value) (p : Value.Position) (behind : List Value) :
    (InsertPayload.tuple (before ++ p.fill v :: behind)).parts =
      ⟨[], InsertPayload.tupleText
        (before.map Value.quote ++ (p.front ++ t ++ p.back) :: behind.map Value.quote)⟩
  /-- A cell of a row by position, among rows above and below. -/
  tuples (above : List (List Value)) (before : List Value) (p : Value.Position)
    (behind : List Value) (below : List (List Value)) :
    (InsertPayload.tuples (above ++ (before ++ p.fill v :: behind) :: below)).parts =
      ⟨[], Text.joinWith ", "
        (above.map (fun row => InsertPayload.tupleText (row.map Value.quote)) ++
          InsertPayload.tupleText
              (before.map Value.quote ++ (p.front ++ t ++ p.back) :: behind.map Value.quote) ::
            below.map fun row => InsertPayload.tupleText (row.map Value.quote))⟩
  /-- Any cell of a payload: the payload is the one in which the text is written by hand. -/
  payload (q : InsertPayload.Place) (p : Value.Position) :
    (q.fill (p.fill v)).parts = (q.fill (.raw (p.front ++ t ++ p.back))).parts
  /-- What is assigned to a field, in assignments that may stand in a list. -/
  assignment (before : Row) (field : Text) (p : Value.Position) (behind : Row) :
    (Assignments.fields (before ++ (field, p.fill v) :: behind)).part =
      Text.joinWith ", " (before.map (fun (name, w) => name ++ " = " ++ w.quote) ++
        (field ++ lit " = " ++ p.front ++ t ++ p.back) ::
          behind.map fun (name, w) => name ++ " = " ++ w.quote)

namespace WrittenAs

variable {v : Value}

/-- Verbatim SQL without a space is no comparison with a field. -/
theorem entry_of_quote (hlist : v.isList = false) (hraw : ∀ sql, v = .raw sql → ' ' ∉ sql)
    (field : Text) : (Operand.value v).render field = field ++ lit " = " ++ v.quote := by
  cases v with
  | list items => exact absurd hlist (by simp [Value.isList])
  | raw sql =>
    have hahead : (field ++ [' ']).isPrefixOf sql = false := by
      rw [Bool.eq_false_iff, ne_eq, List.isPrefixOf_iff_prefix]
      intro hstart
      exact hraw sql rfl (hstart.subset (by simp))
    rw [Operand.render, hahead, if_neg Bool.false_ne_true, Value.quote]
  | _ => simp [Operand.render]

/-- An operand that is no list is written as its literal, if it is no verbatim SQL that could
be a comparison. -/
theorem of_quote (hlist : v.isList = false) (hraw : ∀ sql, v = .raw sql → ' ' ∉ sql) :
    WrittenAs v v.quote where
  literal := Value.Position.quote_fill hlist
  entry := entry_of_quote hlist hraw
  mapping before field behind := by
    simp [Condition.parts, Text.nonempty, entry_of_quote hlist hraw, lit]
  surrounded field s := by
    have hbyHand : (Operand.value (.raw (field ++ lit " = " ++ v.quote))).render field =
        field ++ lit " = " ++ v.quote := by
      have hahead : (field ++ [' ']).isPrefixOf (field ++ lit " = " ++ v.quote) = true := by
        rw [List.isPrefixOf_iff_prefix]
        exact ⟨lit "= " ++ v.quote, by simp [lit]⟩
      rw [Operand.render, hahead, if_pos rfl]
    have hsame : (Filler.operand field v).text =
        (Filler.operand field (.raw (field ++ lit " = " ++ v.quote))).text :=
      (entry_of_quote hlist hraw field).trans hbyHand.symm
    exact .of_parts (s.parts_fill_congr hsame)
  listed field before inner behind := by
    have hquote := Value.Position.quote_fill hlist (.member before inner behind)
    rw [Value.Position.fill] at hquote ⊢
    rw [Operand.render, hquote]
    simp
  criterion bound context field h hsolid negated q p := by
    rw [Criterion.render_of_field (q.needsField_fill _) h, hsolid, if_neg Bool.false_ne_true,
      q.render_fill, Value.Position.quote_fill hlist]
    simp
  cell row field p h := by
    rw [InsertPayload.cell, h]
    exact Value.Position.quote_fill hlist p
  tuple before p behind := by
    rw [InsertPayload.parts]
    refine (InsertPayload.positionalParts_of_tuple [] [] (by simp)).trans ?_
    rw [List.map_append, List.map_cons, Value.Position.quote_fill hlist]
    simp [Text.joinWith]
  tuples above before p behind below := by
    rw [InsertPayload.parts, InsertPayload.positionalParts_of_tuple above below (by simp),
      List.map_append, List.map_cons, Value.Position.quote_fill hlist]
  payload q p := by
    apply InsertPayload.Place.parts_fill_congr
    rw [Value.Position.quote_fill hlist, Value.quote]
  assignment before field p behind := by
    have hentry : field ++ lit " = " ++ (p.fill v).quote =
        field ++ lit " = " ++ p.front ++ v.quote ++ p.back := by
      simp [Value.Position.quote_fill hlist]
    rw [Assignments.part, List.map_append, List.map_cons, ← hentry]

end WrittenAs

theorem Integer.writtenAs_operand (x : Integer) :
    WrittenAs x.operand (lit (toString x.toInt)) := by
  have hraw : ∀ sql, x.operand = .raw sql → ' ' ∉ sql := by
    intro sql hsql
    have hquote := x.quote_operand
    rw [hsql, Value.quote] at hquote
    rw [hquote]
    exact Text.space_notMem_ofInt x.toInt
  rw [← Text.ofInt_eq_toString, ← x.quote_operand]
  exact .of_quote x.isList_operand hraw

/-- An integer is written in decimal wherever operands are written, whether it has an integer
operand or not, and so is every number literal that JSON holds as an integer. -/
theorem Integer.writtenAs_decimal :
    (∀ x : Integer, WrittenAs x.operand (lit (toString x.toInt))) ∧
      ∀ (literal : Json.Numeral) (n : Int), literal.toInt? = some n →
        ∃ v, (Json.ofNumeral? literal).map Value.ofJson = some v ∧
          WrittenAs v (lit (toString n)) := by
  refine ⟨writtenAs_operand, ?_⟩
  intro literal n hliteral
  obtain ⟨x, rfl, hoperand⟩ := exists_of_numeral hliteral
  exact ⟨x.operand, hoperand, x.writtenAs_operand⟩

example : (Operand.value (Integer.uint64 (2 ^ 63)).operand).render "id" =
    lit "id = 9223372036854775808" := by
  decide +kernel

end SqlCompose
