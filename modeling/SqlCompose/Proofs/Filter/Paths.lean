import SqlCompose.Clause.Order
import SqlCompose.Proofs.Filter.Leaves

/-!
# Three ways to ask for an operand

That a field equals an operand, or is among the members of a list, can be
said in three ways: the operand is listed by the field, its test is listed by
the field, or its test is bound to the field.  Each has a renderer, and only
the one of tests takes the blanks off a field and writes nothing for a blank
one.

* A `Filler` is a condition that can stand alone or as an entry among others,
  a `Surrounding` is a condition with a place for one.
* `Surrounding.parts_fill_congr` says that only the text of a filler matters
  in whatever surrounds it, so the ways are compared by their texts.

Main result: `operand_paths_agree`.
-/

namespace SqlCompose

/-! ## Fillers -/

/-- A condition that can stand alone or as an entry among other fields. -/
structure Filler where
  alone : Condition
  entry : Text × Operand
  /-- It is written as one text, wherever it stands. -/
  same : alone.parts = Condition.element (entry.2.render entry.1)

namespace Filler

/-- What a filler is written as. -/
def text (x : Filler) : Text := x.entry.2.render x.entry.1

/-- A single entry. -/
def listed (field : Text) (operand : Operand) : Filler where
  alone := .fields [(field, operand)]
  entry := (field, operand)
  same := by
    rw [Condition.parts, Condition.element]
    split <;> simp_all [Text.nonempty]

/-- A criterion that is bound to a field, under any key. -/
def bound (key field : Text) (c : Criterion) : Filler where
  alone := .criterion (c.on field)
  entry := (key, .criterion (c.on field))
  same := rfl

end Filler

/-! ## Surroundings -/

/-- A condition with a place for another one. -/
inductive Surrounding where
  /-- The place itself. -/
  | here
  /-- An entry among others. -/
  | entry (before behind : List (Text × Operand))
  /-- A member of a list. -/
  | all (before : List Condition) (inner : Surrounding) (behind : List Condition)
  /-- An arm of a disjunction. -/
  | any (before : List Condition) (inner : Surrounding) (behind : List Condition)

namespace Surrounding

/-- The condition with the place filled. -/
def fill (x : Filler) : Surrounding → Condition
  | here => x.alone
  | entry before behind => .fields (before ++ x.entry :: behind)
  | all before inner behind => .all (before ++ fill x inner :: behind)
  | any before inner behind => .any (before ++ fill x inner :: behind)

/-- Fillers that are written the same contribute the same, whatever they stand in. -/
theorem parts_fill_congr {x y : Filler} (h : x.text = y.text) (s : Surrounding) :
    (s.fill x).parts = (s.fill y).parts := by
  induction s with
  | here =>
    rw [fill, fill, x.same, y.same]
    exact congrArg Condition.element h
  | entry before behind =>
    have hentry : x.entry.2.render x.entry.1 = y.entry.2.render y.entry.1 := h
    rw [fill, fill, Condition.parts, Condition.parts, List.map_append, List.map_append,
      List.map_cons, List.map_cons]
    simp only [hentry]
  | all before inner behind ih =>
    rw [fill, fill, Condition.parts, Condition.parts, Condition.partsOfAll_eq_flatMap,
      Condition.partsOfAll_eq_flatMap]
    simp [ih]
  | any before inner behind ih =>
    have hrender : (inner.fill x).render = (inner.fill y).render :=
      congrArg Condition.conjunction ih
    rw [fill, fill, Condition.parts, Condition.parts, Condition.armTexts_eq_map,
      Condition.armTexts_eq_map]
    simp [hrender]

end Surrounding

/-- Two conditions contribute the same elements, and so make the same clauses. -/
structure SaysSame (c d : Condition) : Prop where
  parts : c.parts = d.parts
  whereClause : Condition.whereClause (some c) = Condition.whereClause (some d)
  havingClause (g : Option GroupBy) :
    GroupBy.havingClause g (some c) = GroupBy.havingClause g (some d)

theorem SaysSame.of_parts {c d : Condition} (h : c.parts = d.parts) : SaysSame c d := by
  have hrender : c.render = d.render := congrArg Condition.conjunction h
  have hclause : ∀ keyword,
      Condition.clause keyword (some c) = Condition.clause keyword (some d) := by
    intro keyword
    rw [Condition.clause, Condition.clause, Option.map_some, Option.map_some, hrender]
  refine ⟨h, hclause "WHERE", fun g => ?_⟩
  rw [GroupBy.havingClause, GroupBy.havingClause, hclause]

/-! ## Three ways -/

/-- The criterion that asks what an operand asks that is listed by a field: to be among the
members of a list, or to equal anything else. -/
def Criterion.ofValue (v : Value) : Criterion :=
  .unbound false (if v.isList then .among v else .compare "=" v)

variable {v : Value} {field : Text}

theorem Criterion.render_ofValue_predicate (v : Value) (field : Text) :
    (ofValue v).predicate.render field = field ++ ' ' :: v.question := by
  rw [ofValue, unbound, Value.question]
  split <;> simp [Predicate.render, Predicate.notWord, lit]

theorem Criterion.needsField_ofValue (v : Value) :
    (ofValue v).predicate.test.needsField = true := by
  rw [ofValue, unbound]
  split <;> rfl

/-- The test of an operand takes the blanks off its field, and needs one. -/
theorem Criterion.render_ofValue (v : Value) (field : Text) :
    (ofValue v).render (some field) =
      if field.blank then [] else field.trim ++ ' ' :: v.question := by
  rw [render_of_field (needsField_ofValue v) rfl, render_ofValue_predicate]

namespace Filler

/-- An operand that is listed by a field. -/
def operand (field : Text) (v : Value) : Filler := listed field (.value v)

/-- The test of an operand that is listed by a field. -/
def test (field : Text) (v : Value) : Filler := listed field (.criterion (.ofValue v))

theorem text_operand (h : ∀ sql, v ≠ .raw sql) (field : Text) :
    (operand field v).text = field ++ ' ' :: v.question := Operand.render_value h field

theorem text_test (field : Text) (v : Value) :
    (test field v).text = if field.blank then [] else field.trim ++ ' ' :: v.question :=
  Criterion.render_ofValue v field

/-- The field that a test is bound to goes before the key that it is listed by. -/
theorem text_bound (key field : Text) (v : Value) :
    (bound key field (.ofValue v)).text = (test field v).text := rfl

end Filler

/-- Whether a name says something and has no outer blanks. -/
def IsPlainName (name : Text) : Prop := name ≠ [] ∧ name.trim = name

instance : DecidablePred IsPlainName :=
  fun name => inferInstanceAs (Decidable (name ≠ [] ∧ name.trim = name))

theorem IsPlainName.solid {name : Text} (h : IsPlainName name) : name.blank = false := by
  rw [Bool.eq_false_iff, ne_eq, Text.blank_iff_trim_eq_nil, h.2]
  exact h.1

theorem isPlainName_trim (h : field.blank = false) : IsPlainName field.trim := by
  refine ⟨fun hnil => ?_, Text.trim_trim field⟩
  rw [Text.blank_iff_trim_eq_nil.2 hnil] at h
  exact absurd h (by decide)

/-- The two renderers write the same exactly for a plain name. -/
theorem text_operand_eq_text_test_iff (h : ∀ sql, v ≠ .raw sql) :
    (Filler.operand field v).text = (Filler.test field v).text ↔ IsPlainName field := by
  rw [Filler.text_operand h, Filler.text_test]
  constructor
  · intro heq
    split at heq
    · simp at heq
    · rename_i hsolid
      have htrim : field = field.trim := List.append_cancel_right heq
      rw [htrim]
      exact isPlainName_trim (Bool.eq_false_iff.2 hsolid)
  · intro hplain
    rw [hplain.solid, if_neg Bool.false_ne_true, hplain.2]

/-- A test contributes the same whether it is listed by its field or bound to it, in every
surrounding, and for a field that says something the same as the operand that is listed by the
trimmed field.  Listed by the field as it is, the operand contributes the same exactly if the
field is a plain name. -/
theorem operand_paths_agree (hraw : ∀ sql, v ≠ .raw sql) (field : Text) :
    (∀ (s : Surrounding) (key : Text),
      SaysSame (s.fill (.bound key field (.ofValue v))) (s.fill (.test field v))) ∧
    (field.blank = false → ∀ s : Surrounding,
      SaysSame (s.fill (.test field v)) (s.fill (.operand field.trim v))) ∧
    (IsPlainName field → ∀ s : Surrounding,
      SaysSame (s.fill (.operand field v)) (s.fill (.test field v))) ∧
    ((Filler.operand field v).alone.parts = (Filler.test field v).alone.parts →
      IsPlainName field) := by
  refine ⟨?_, ?_, ?_, ?_⟩
  · intro s key
    exact .of_parts (s.parts_fill_congr (Filler.text_bound key field v))
  · intro hsolid s
    refine .of_parts (s.parts_fill_congr ?_)
    rw [Filler.text_operand hraw, Filler.text_test, hsolid, if_neg Bool.false_ne_true]
  · intro hplain s
    exact .of_parts (s.parts_fill_congr ((text_operand_eq_text_test_iff hraw).2 hplain))
  · intro hparts
    rw [(Filler.operand field v).same, (Filler.test field v).same] at hparts
    have htext := congrArg List.flatten hparts
    rw [Condition.flatten_element, Condition.flatten_element] at htext
    exact (text_operand_eq_text_test_iff hraw).1 htext

/-- An arm that says something beside a blank one, with the place in it. -/
def besideBlank : Surrounding :=
  .all [.sql "b = 0"] (.any [.sql " "] (.entry [("c", .value .null)] []) []) []

theorem operand_paths_agree_besideBlank :
    (besideBlank.fill (.operand "a" (.list [.int 1, .text "x"]))).render =
      lit "b = 0 OR c = NULL AND a IN (1, 'x')" ∧
    SaysSame (besideBlank.fill (.operand "a" (.list [.int 1, .text "x"])))
      (besideBlank.fill (.test "a" (.list [.int 1, .text "x"]))) := by
  obtain ⟨-, -, hplain, -⟩ :=
    @operand_paths_agree (.list [.int 1, .text "x"]) (fun _ h => nomatch h) "a"
  exact ⟨by decide +kernel, hplain (by decide) besideBlank⟩

/-- With blanks around its field an operand is written as it is, and its test without them.  A
blank field is written by the one and leaves nothing by the other, so a `WHERE` is there or
not. -/
theorem operand_paths_differ :
    (Filler.operand " a " (.int 1)).alone.parts = [lit " a  = 1"] ∧
    (Filler.test " a " (.int 1)).alone.parts = [lit "a = 1"] ∧
    (Filler.bound "b" " a " (.ofValue (.int 1))).alone.parts = [lit "a = 1"] ∧
    Condition.whereClause (some (Filler.operand " " (.int 1)).alone) = lit "WHERE   = 1" ∧
    Condition.whereClause (some (Filler.test " " (.int 1)).alone) = [] := by
  decide +kernel

end SqlCompose
