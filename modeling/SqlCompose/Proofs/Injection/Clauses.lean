import SqlCompose.Proofs.Injection.Conditions

/-!
# Clauses and payloads agree with their redactions

Names, numbers and the words of SQL are the same in a statement and in its
redaction, so a clause made of them agrees with itself and has no literals.
The cells of an `INSERT` and the new values of an `UPDATE` are operands, each
at the place of one in the redaction.
-/

namespace SqlCompose

variable {t : Text}

theorem AgreeAll.same {α : Type} {f : α → Text} {xs : List α}
    (h : ∀ x ∈ xs, Agree (f x) (f x) []) : AgreeAll (xs.map f) (xs.map f) [] := by
  have hall := AgreeAll.map (k := fun _ => []) h
  rwa [List.flatMap_eq_nil_iff.2 fun _ _ => rfl] at hall

/-- An optional part of a statement. -/
theorem Agree.optional {α : Type} {f g : α → Text} {k : α → List Text} {part : Option α}
    (h : ∀ x ∈ part, Agree (f x) (g x) (k x)) :
    Agree ((part.map f).getD []) ((part.map g).getD []) (part.toList.flatMap k) := by
  cases part with
  | none => exact .nil
  | some x => simpa using h x rfl

theorem Agree.optional_same {α : Type} {f : α → Text} {part : Option α}
    (h : ∀ x ∈ part, Agree (f x) (f x) []) :
    Agree ((part.map f).getD []) ((part.map f).getD []) [] := by
  cases part with
  | none => exact .nil
  | some x => exact h x rfl

/-! ## Names and numbers -/

theorem agree_joinNames {names : List Text} (h : ∀ t ∈ names, Inert t) :
    Agree (joinNames names) (joinNames names) [] :=
  (AgreeAll.same fun t ht => (Agree.verbatim (h t ht)).trim).joinNonempty glues_comma

theorem agree_countText (n : Int64) : Agree (countText n) (countText n) [] := by
  obtain ⟨digits, heq, hdigits⟩ := Text.ofInt_eq n.toInt
  exact Value.agree_numeral heq hdigits

namespace GroupBy

theorem agree_clause {g : Option GroupBy} (h : ∀ t ∈ g.toList.flatMap verbatims, Inert t) :
    Agree (clause g) (clause g) [] := by
  refine Agree.clause (by decide) (Agree.optional_same fun x hx => ?_)
  have hx := forall_of_flatMap h (Option.mem_toList.2 hx)
  cases x with
  | verbatim text => exact (Agree.verbatim (hx text (by simp [verbatims]))).trim
  | names list => exact agree_joinNames hx

end GroupBy

namespace OrderBy

theorem agree_entry {field : Text} (h : Inert field) (word : Text) :
    Agree (entry field word) (entry field word) [] := by
  have hdirection : Inert (direction word) := by
    unfold direction
    split <;> decide
  unfold entry
  split
  · exact .nil
  · exact (Agree.verbatim hdirection).worded h.trim

theorem agree_clause {o : Option OrderBy} (h : ∀ t ∈ o.toList.flatMap verbatims, Inert t) :
    Agree (clause o) (clause o) [] := by
  refine Agree.clause (by decide) (Agree.optional_same fun x hx => ?_)
  have hx := forall_of_flatMap h (Option.mem_toList.2 hx)
  cases x with
  | verbatim text => exact (Agree.verbatim (hx text (by simp [verbatims]))).trim
  | names list => exact agree_joinNames hx
  | directed entries =>
    refine (AgreeAll.same fun (field, word) hmem => ?_).joinNonempty glues_comma
    exact agree_entry (hx field (List.mem_map.2 ⟨(field, word), hmem, rfl⟩)) word

end OrderBy

namespace RowLimit

theorem agree_clause {l : Option RowLimit} (h : ∀ t ∈ l.toList.flatMap verbatims, Inert t) :
    Agree (clause l) (clause l) [] := by
  refine Agree.clause (by decide) (Agree.optional_same fun x hx => ?_)
  have hx := forall_of_flatMap h (Option.mem_toList.2 hx)
  have hoffset : Glues " OFFSET " := glues_word "OFFSET" rfl rfl (by decide)
  unfold body
  split
  · rename_i text _
    exact (Agree.verbatim (hx text (by simp [verbatims]))).trim
  · split_ifs
    · exact agree_countText _
    · exact .nil
  · split_ifs
    · exact glues_comma (agree_countText _) (agree_countText _)
    · exact agree_countText _
    · exact .nil
  · split_ifs
    · exact agree_countText _
    · exact .nil
  · exact .nil
  · split_ifs
    · exact hoffset (agree_countText _) (agree_countText _)
    · exact agree_countText _
    · exact .nil

end RowLimit

theorem Top.agree_clause (top : Option Top) : Agree (clause top) (clause top) [] := by
  have hword : Inert "TOP" := by decide
  unfold clause
  split
  · split_ifs
    · simpa [lit] using (agree_countText _).worded hword
    · exact .nil
  · exact .nil

theorem agree_distinctClause (distinct : Bool) :
    Agree (distinctClause distinct) (distinctClause distinct) [] := by
  cases distinct with
  | false => exact .nil
  | true => exact .verbatim (by decide)

/-! ## Projections -/

theorem ColumnTarget.agree_columnTexts {key : Text} (hkey : Inert key) {target : ColumnTarget}
    (h : ∀ t ∈ target.verbatims, Inert t) :
    AgreeAll (target.columnTexts key) (target.columnTexts key) [] := by
  cases target with
  | renamed name =>
    have has : Glues " AS " := glues_word "AS" rfl rfl (by decide)
    exact .singleton (has (.verbatim hkey) (.verbatim (h name (by simp [verbatims]))))
  | columns names =>
    refine AgreeAll.same fun name hname => ?_
    exact Agree.separated (c := '.') rfl (.verbatim hkey) (.verbatim (h name hname))

namespace Projection

mutual

theorem agree_columns : ∀ p : Projection, (∀ t ∈ p.verbatims, Inert t) →
    Agree p.columns p.columns []
  | verbatim text, h => (Agree.verbatim (h text (by simp [verbatims]))).trim
  | list items, h => by
    rw [columns]
    exact (agree_columnsOfAll items h).joinNonempty glues_comma
  | keyed entries, h => by
    rw [columns]
    refine (AgreeAll.same fun (key, target) hmem => ?_).joinNonempty glues_comma
    have hentry := forall_of_flatMap h hmem
    exact (ColumnTarget.agree_columnTexts (hentry key (by simp)) fun t ht =>
      hentry t (by simp [ht])).joinWith glues_comma

theorem agree_columnsOfAll : ∀ items : List Projection,
    (∀ t ∈ verbatimsOfItems items, Inert t) → AgreeAll (columnsOfAll items) (columnsOfAll items) []
  | [], _ => .nil
  | item :: rest, h => by
    rw [columnsOfAll]
    exact .cons (agree_columns item fun t ht => h t (by simp [verbatimsOfItems, ht]))
      (agree_columnsOfAll rest fun t ht => h t (by simp [verbatimsOfItems, ht]))

end

theorem agree_render {p : Option Projection} (h : ∀ t ∈ p.toList.flatMap verbatims, Inert t) :
    Agree (render p) (render p) [] := by
  unfold render
  dsimp only
  split
  · exact .verbatim (by decide)
  · exact Agree.optional_same fun x hx =>
      agree_columns x (forall_of_flatMap h (Option.mem_toList.2 hx))

end Projection

/-! ## Payloads -/

namespace Row

theorem map_fst_redact (row : Row) : (Row.redact row).map Prod.fst = row.map Prod.fst := by
  simp [redact]

theorem lookup_redact (row : Row) (field : Text) :
    (Row.redact row).lookup field = (row.lookup field).map Value.redact := by
  induction row with
  | nil => rfl
  | cons entry rest ih =>
    obtain ⟨key, v⟩ := entry
    change List.lookup field ((key, v.redact) :: Row.redact rest) = _
    rw [List.lookup_cons, List.lookup_cons, ih]
    split <;> rfl

theorem inert_operand {row : Row} (h : ∀ t ∈ Row.verbatims row, Inert t) {field : Text} {v : Value}
    (hmem : (field, v) ∈ row) : Inert field ∧ ∀ t ∈ v.verbatims, Inert t := by
  have hentry := forall_of_flatMap h hmem
  exact ⟨hentry field (by simp), fun t ht => hentry t (by simp [ht])⟩

end Row

namespace InsertPayload

theorem mem_foldl_addField {names fields : List Text} {name : Text}
    (h : name ∈ names.foldl addField fields) : name ∈ fields ∨ name ∈ names := by
  induction names generalizing fields with
  | nil => exact .inl h
  | cons next names ih =>
    rcases ih h with hmem | hmem
    · unfold addField at hmem
      split at hmem
      · exact .inl hmem
      · rcases List.mem_append.1 hmem with hmem | hmem
        · exact .inl hmem
        · exact .inr (by simp [List.mem_singleton.1 hmem])
    · exact .inr (by simp [hmem])

theorem inert_of_mem_fieldList {rows : List Row}
    (h : ∀ t ∈ rows.flatMap Row.verbatims, Inert t) {field : Text}
    (hfield : field ∈ fieldList rows) : Inert field := by
  rcases mem_foldl_addField hfield with hmem | hmem
  · exact absurd hmem List.not_mem_nil
  · obtain ⟨row, hrow, hmem⟩ := List.mem_flatMap.1 hmem
    obtain ⟨⟨_, v⟩, hentry, rfl⟩ := List.mem_map.1 hmem
    exact (Row.inert_operand (forall_of_flatMap h hrow) hentry).1

theorem fieldList_redact (rows : List Row) : fieldList (rows.map Row.redact) = fieldList rows := by
  simp [fieldList, List.flatMap_map, Row.map_fst_redact]

/-- A cell agrees with the cell of the redaction; without an operand it is a default. -/
theorem agree_cell {row : Row} (h : ∀ t ∈ Row.verbatims row, Inert t) (field : Text) :
    Agree (cell row field) (cell (Row.redact row) field)
      (((row.lookup field).map Value.contents).getD []) := by
  rw [cell, cell, Row.lookup_redact]
  cases hv : row.lookup field with
  | none => exact .verbatim (by decide)
  | some v =>
    obtain ⟨before, behind, rfl, -⟩ := List.lookup_eq_some_iff.1 hv
    have hmem : (field, v) ∈ before ++ (field, v) :: behind := by simp
    exact v.agree_quote (Row.inert_operand h hmem).2

theorem agree_tupleText {as bs x : List Text} (h : AgreeAll as bs x) :
    Agree (tupleText as) (tupleText bs) x :=
  (h.joinWith glues_comma).bracketed

/-- The field lists are the same, and the rows agree. -/
theorem agree_namedParts {rows : List Row} (h : ∀ t ∈ rows.flatMap Row.verbatims, Inert t) :
    Agree (namedParts rows).fields (namedParts (rows.map Row.redact)).fields [] ∧
      Agree (namedParts rows).values (namedParts (rows.map Row.redact)).values
        (namedContents rows) := by
  unfold namedParts
  rw [fieldList_redact]
  dsimp only
  split
  · rename_i hempty
    have hnone : namedContents rows = [] := by simp [namedContents, List.isEmpty_iff.1 hempty]
    rw [hnone]
    exact ⟨.nil, .nil⟩
  · refine ⟨?_, ?_⟩
    · have hnames : AgreeAll ((fieldList rows).map id) ((fieldList rows).map id) [] :=
        AgreeAll.same fun _ hfield => .verbatim (inert_of_mem_fieldList h hfield)
      rw [List.map_id] at hnames
      exact agree_tupleText hnames
    · rw [List.map_map]
      refine (AgreeAll.map fun row hrow => ?_).joinWith glues_comma
      exact agree_tupleText (AgreeAll.map fun field _ =>
        agree_cell (forall_of_flatMap h hrow) field)

theorem agree_positionalParts {tuples : List (List Value)}
    (h : ∀ t ∈ tuples.flatMap (·.flatMap Value.verbatims), Inert t) :
    Agree (positionalParts tuples).fields
        (positionalParts (tuples.map (·.map Value.redact))).fields [] ∧
      Agree (positionalParts tuples).values
        (positionalParts (tuples.map (·.map Value.redact))).values
        (tuples.flatMap (·.flatMap Value.contents)) := by
  have hall : (tuples.map (·.map Value.redact)).all List.isEmpty = tuples.all List.isEmpty := by
    simp [List.all_map, Function.comp_def]
  unfold positionalParts
  rw [hall]
  split
  · rename_i hempty
    have hnone : tuples.flatMap (·.flatMap Value.contents) = [] := by
      rw [List.flatMap_eq_nil_iff]
      intro cells hcells
      rw [List.isEmpty_iff.1 (List.all_eq_true.1 hempty cells hcells)]
      rfl
    rw [hnone]
    exact ⟨.nil, .nil⟩
  · refine ⟨.nil, ?_⟩
    rw [List.map_map]
    refine (AgreeAll.map fun cells hcells => agree_tupleText ?_).joinWith glues_comma
    have hcells := forall_of_flatMap h hcells
    simpa using AgreeAll.map fun v hv => v.agree_quote (forall_of_flatMap hcells hv)

/-- The two parts that an `INSERT` takes from its payload agree with those of the redaction. -/
theorem agree_parts {payload : InsertPayload} (h : ∀ t ∈ payload.verbatims, Inert t) :
    Agree payload.parts.fields payload.redact.parts.fields [] ∧
      Agree payload.parts.values payload.redact.parts.values payload.contents := by
  cases payload with
  | row entries => exact agree_namedParts (by simpa [verbatims] using h)
  | rows list => exact agree_namedParts h
  | tuple cells =>
    have hparts := @agree_positionalParts [cells] (by simpa [verbatims] using h)
    simpa [parts, redact, contents] using hparts
  | tuples list => exact agree_positionalParts h

end InsertPayload

namespace Assignments

theorem agree_part {a : Assignments} (h : ∀ t ∈ a.verbatims, Inert t) :
    Agree a.part a.redact.part a.partContents := by
  cases a with
  | verbatim text => exact (Agree.verbatim (h text (by simp [verbatims]))).trim
  | fields entries =>
    rw [redact, part, part, partContents, Row.redact, List.map_map]
    refine (AgreeAll.map fun (field, v) hmem => ?_).joinWith glues_comma
    obtain ⟨hfield, hv⟩ := Row.inert_operand h hmem
    have hequal : Glues " = " := glues_word "=" rfl rfl (by decide)
    exact hequal (.verbatim hfield) (v.agree_quote hv)
  | list items => exact .nil

theorem agree_render {a : Assignments} (h : ∀ t ∈ a.verbatims, Inert t) :
    Agree a.render a.redact.render a.contents := by
  cases a with
  | list items =>
    rw [verbatims, verbatimsOfItems_eq_flatMap] at h
    rw [redact, redactItems_eq_map, render, render, contents, List.map_map]
    have hitems := AgreeAll.map fun item hitem => agree_part (forall_of_flatMap h hitem)
    exact hitems.joinNonempty glues_comma
  | verbatim text => exact agree_part h
  | fields entries => exact agree_part h

end Assignments

end SqlCompose
