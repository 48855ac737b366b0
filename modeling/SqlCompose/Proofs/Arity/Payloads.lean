import SqlCompose.Proofs.Arity.Expressions
import SqlCompose.Clause.Payload

/-!
# Cells and expressions

The rows of an `INSERT` are one tuple each.  A tuple has the expressions of
its cells, so it has one for each cell where the cells that are lists make up
for each other, and in particular where there are none.  `SET` has the
expressions of its entries, of which the first stands behind the field.

* `readTuples_values` and `readTuples_fields` read the parts of a payload.
* `exists_written_render` reads what stands behind `SET`.

Main result: `payload_arity`.
-/

namespace SqlCompose

open Token Phrase
open Value (codePhrases)

/-- Whether a character of a name only stands for itself between commas. -/
def isKeyChar (c : Char) : Bool := c ∉ [',', '\'', '"', '(', ')']

/-- A name without commas, quotes and brackets. -/
def IsKey (key : Text) : Prop := ∀ c ∈ key, isKeyChar c = true

instance (key : Text) : Decidable (IsKey key) :=
  decidable_of_iff (key.all isKeyChar = true) List.all_eq_true

theorem IsKey.written {key : Text} (h : IsKey key) : Written key (codePhrases key) := by
  refine .of_codes fun c hc => ?_
  have hplain := h c hc
  simp only [isKeyChar, List.mem_cons, not_or, decide_eq_true_eq] at hplain
  obtain ⟨-, hquote, hname, hopen, hclose, -⟩ := hplain
  exact ⟨⟨hquote, hname⟩, hopen, hclose⟩

theorem IsKey.noComma {key : Text} (h : IsKey key) : ∀ p ∈ codePhrases key, p.isComma = false := by
  intro p hp
  simp only [codePhrases, leaves, codes, List.map_map, List.mem_map, Function.comp_apply] at hp
  obtain ⟨c, hc, rfl⟩ := hp
  have hcomma : c ≠ ',' := by
    rintro rfl
    exact absurd (h ',' hc) (by decide)
  simpa [isComma] using hcomma

/-! ## Rows to insert -/

namespace InsertPayload

/-- The operands of all rows. -/
def operands : InsertPayload → List Value
  | row entries => entries.map Prod.snd
  | rows list => list.flatMap fun entries => entries.map Prod.snd
  | tuple cells => cells
  | tuples list => list.flatten

/-- How many operands each row holds. -/
def rowLengths : InsertPayload → List Nat
  | row entries => [entries.length]
  | rows list => list.map List.length
  | tuple cells => [cells.length]
  | tuples list => list.map List.length

/-- The fields that rows with names have. -/
def fields : InsertPayload → List Text
  | row entries => fieldList [entries]
  | rows list => fieldList list
  | tuple _ | tuples _ => []

/-- Under every field the cell of each row, if the row has one. -/
def namedCells (rows : List Row) : List (List (Option Value)) :=
  rows.map fun row => (fieldList rows).map fun field => row.lookup field

/-- The cells of each row, as they are written one behind the other. -/
def cells : InsertPayload → List (List (Option Value))
  | row entries => namedCells [entries]
  | rows list => namedCells list
  | tuple cells => [cells.map some]
  | tuples list => list.map fun cells => cells.map some

/-- How many expressions each row should be: one for each field, or for each operand where
operands go by position. -/
def arities : InsertPayload → List Nat
  | row entries => [(fieldList [entries]).length]
  | rows list => list.map fun _ => (fieldList list).length
  | tuple cells => [cells.length]
  | tuples list => list.map List.length

theorem map_length_cells (payload : InsertPayload) :
    payload.cells.map List.length = payload.arities := by
  cases payload <;> simp [cells, namedCells, arities, Function.comp_def]

/-- What a cell is made of. -/
def cellPhrases : Option Value → List Phrase
  | some v => v.phrases
  | none => codePhrases "DEFAULT"

/-- The expressions that a cell is written as. -/
def cellExpressions : Option Value → List (List Phrase)
  | some v => v.expressions
  | none => [codePhrases "DEFAULT"]

/-- How many expressions a cell is written as. -/
def cellWidth : Option Value → Nat
  | some v => v.width
  | none => 1

/-- What a row is made of. -/
def rowPhrases (row : List (Option Value)) : List Phrase :=
  (codePhrases ", ").intercalate (row.map cellPhrases)

/-- What a cell is written as. -/
def cellText : Option Value → Text
  | some v => v.quote
  | none => "DEFAULT"

theorem length_cellExpressions (cell : Option Value) :
    (cellExpressions cell).length = cellWidth cell := by
  cases cell with
  | none => rfl
  | some v => exact v.length_expressions

theorem length_flatMap_cellExpressions (row : List (Option Value)) :
    (row.flatMap cellExpressions).length = (row.map cellWidth).sum := by
  rw [List.length_flatMap]
  congr 1
  exact List.map_congr_left fun cell _ => length_cellExpressions cell

section

variable {cell : Option Value} {row : List (Option Value)}

theorem written_cell (h : ∀ v ∈ cell, v.RawFree) : Written (cellText cell) (cellPhrases cell) := by
  cases cell with
  | none => exact .of_codes (by simp [cellText, lit])
  | some v => exact .of_rawFree (h v rfl)

theorem expressions_cell (h : ∀ v ∈ cell, v.RawFree) :
    Phrase.expressions (cellPhrases cell) = cellExpressions cell := by
  cases cell with
  | none => exact (single_codePhrases (by decide) (by simp [lit, isBlank])).expressions
  | some v => exact Value.expressions_phrases (h v rfl)

/-- A row is read as the expressions of its cells. -/
theorem expressions_rowPhrases (h : ∀ cell ∈ row, ∀ v ∈ cell, v.RawFree) :
    Phrase.expressions (rowPhrases row) = row.flatMap cellExpressions := by
  rw [rowPhrases, expressions_intercalate, List.flatMap_map]
  exact List.flatMap_congr fun cell hcell => expressions_cell (h cell hcell)

theorem written_row (h : ∀ cell ∈ row, ∀ v ∈ cell, v.RawFree) :
    Written (tupleText (row.map cellText)) [group (rowPhrases row)] :=
  (Written.joinWith fun cell hcell => written_cell (h cell hcell)).bracketed

end

theorem pieces_rows (rows : List (List (Option Value))) :
    (rows.map fun row => [group (rowPhrases row)]).flatMap pieces =
      rows.map fun row => [group (rowPhrases row)] := by
  induction rows with
  | nil => rfl
  | cons row rows ih =>
    rw [List.map_cons, List.flatMap_cons, (single_group _).pieces, ih, List.singleton_append]

theorem mapM_inside_rows (rows : List (List (Option Value))) :
    (rows.map fun row => [group (rowPhrases row)]).mapM inside? = some (rows.map rowPhrases) := by
  induction rows with
  | nil => rfl
  | cons row rows ih => simp [inside?, ih]

/-- Tuples with commas between are read one by one. -/
theorem readTuples_joinWith {rows : List (List (Option Value))} (hne : rows ≠ [])
    (h : ∀ row ∈ rows, ∀ cell ∈ row, ∀ v ∈ cell, v.RawFree) :
    readTuples (Text.joinWith ", " (rows.map fun row => tupleText (row.map cellText))) =
      some (rows.map rowPhrases) := by
  have hwritten := Written.joinWith fun row hrow => written_row (h row hrow)
  rw [readTuples, hwritten.readPhrases, Option.bind_some, pieces_intercalate (by simpa using hne),
    pieces_rows, mapM_inside_rows]

/-! ### The parts of a payload -/

theorem mem_addField {fields : List Text} {name field : Text} :
    field ∈ addField fields name ↔ field ∈ fields ∨ field = name := by
  unfold addField
  split
  · rename_i hmem
    exact ⟨.inl, fun h => h.elim id fun heq => heq ▸ hmem⟩
  · rw [List.mem_append, List.mem_singleton]

theorem mem_foldl_addField_iff {fields names : List Text} {field : Text} :
    field ∈ names.foldl addField fields ↔ field ∈ fields ∨ field ∈ names := by
  induction names generalizing fields with
  | nil => simp
  | cons name rest ih => rw [List.foldl_cons, ih, mem_addField, List.mem_cons, or_assoc]

/-- Rows with an entry have a field. -/
theorem fieldList_ne_nil {rows : List Row} {row : Row} (hrow : row ∈ rows) (hne : row ≠ []) :
    fieldList rows ≠ [] := by
  obtain ⟨entry, hentry⟩ := List.exists_mem_of_ne_nil row hne
  have hfield : entry.1 ∈ fieldList rows :=
    mem_foldl_addField_iff.2 (.inr (List.mem_flatMap.2 ⟨row, hrow, List.mem_map_of_mem hentry⟩))
  exact List.ne_nil_of_mem hfield

/-- The cells of a payload hold its operands and no other. -/
theorem mem_operands_of_mem_cells {payload : InsertPayload} {row : List (Option Value)}
    (hrow : row ∈ payload.cells) {v : Value} (hv : some v ∈ row) : v ∈ payload.operands := by
  have hnamed : ∀ rows : List Row, row ∈ namedCells rows →
      v ∈ rows.flatMap fun entries => entries.map Prod.snd := by
    intro rows hmem
    obtain ⟨entries, hentries, rfl⟩ := List.mem_map.1 hmem
    obtain ⟨field, -, hlookup⟩ := List.mem_map.1 hv
    obtain ⟨before, behind, rfl, -⟩ := List.lookup_eq_some_iff.1 hlookup
    exact List.mem_flatMap.2 ⟨_, hentries, by simp⟩
  cases payload with
  | row entries => simpa [operands] using hnamed [entries] hrow
  | rows list => exact hnamed list hrow
  | tuple cells =>
    rw [List.mem_singleton.1 hrow] at hv
    simpa [operands] using hv
  | tuples list =>
    obtain ⟨cells, hcells, rfl⟩ := List.mem_map.1 hrow
    exact List.mem_flatten.2 ⟨cells, hcells, by simpa using hv⟩

theorem cell_eq_cellText (row : Row) (field : Text) :
    cell row field = cellText (row.lookup field) := by
  unfold cell
  cases row.lookup field <;> rfl

theorem namedParts_eq {rows : List Row} (h : fieldList rows ≠ []) :
    namedParts rows = ⟨tupleText (fieldList rows),
      Text.joinWith ", " ((namedCells rows).map fun row => tupleText (row.map cellText))⟩ := by
  unfold namedParts
  rw [if_neg (by simpa using h), namedCells, List.map_map]
  simp only [Function.comp_def, List.map_map, ← cell_eq_cellText]

theorem positionalParts_eq {tuples : List (List Value)} {cells : List Value}
    (hmem : cells ∈ tuples) (hne : cells ≠ []) :
    positionalParts tuples = ⟨[], Text.joinWith ", "
      ((tuples.map fun cells => cells.map some).map fun row => tupleText (row.map cellText))⟩ := by
  have hall : ¬tuples.all List.isEmpty = true := by
    intro hempty
    exact hne (List.isEmpty_iff.1 (List.all_eq_true.1 hempty cells hmem))
  unfold positionalParts
  rw [if_neg hall, List.map_map]
  simp only [Function.comp_def, List.map_map, cellText]

/-- A payload with an operand is written as its cells. -/
theorem values_eq {payload : InsertPayload} (h : ∃ n ∈ payload.rowLengths, n ≠ 0) :
    payload.parts.values =
        Text.joinWith ", " (payload.cells.map fun row => tupleText (row.map cellText)) ∧
      payload.cells ≠ [] := by
  obtain ⟨n, hn, hne⟩ := h
  cases payload with
  | row entries =>
    obtain rfl : n = entries.length := List.mem_singleton.1 hn
    have hfields := fieldList_ne_nil (List.mem_singleton_self entries)
      (List.ne_nil_of_length_pos (Nat.pos_of_ne_zero hne))
    exact ⟨by rw [parts, namedParts_eq hfields]; rfl, by simp [cells, namedCells]⟩
  | rows list =>
    obtain ⟨entries, hentries, rfl⟩ := List.mem_map.1 hn
    have hfields := fieldList_ne_nil hentries (List.ne_nil_of_length_pos (Nat.pos_of_ne_zero hne))
    exact ⟨by rw [parts, namedParts_eq hfields]; rfl,
      by simpa [cells, namedCells] using List.ne_nil_of_mem hentries⟩
  | tuple values =>
    obtain rfl : n = values.length := List.mem_singleton.1 hn
    have hvalues := List.ne_nil_of_length_pos (Nat.pos_of_ne_zero hne)
    exact ⟨by rw [parts, positionalParts_eq (List.mem_singleton_self values) hvalues]; rfl,
      by simp [cells]⟩
  | tuples list =>
    obtain ⟨values, hvalues, rfl⟩ := List.mem_map.1 hn
    have hne := List.ne_nil_of_length_pos (Nat.pos_of_ne_zero hne)
    exact ⟨by rw [parts, positionalParts_eq hvalues hne]; rfl,
      by simpa [cells] using List.ne_nil_of_mem hvalues⟩

theorem readTuples_values {payload : InsertPayload} (hraw : ∀ v ∈ payload.operands, v.RawFree)
    (hcells : ∃ n ∈ payload.rowLengths, n ≠ 0) :
    readTuples payload.parts.values = some (payload.cells.map rowPhrases) := by
  obtain ⟨heq, hne⟩ := values_eq hcells
  rw [heq]
  refine readTuples_joinWith hne fun row hrow cell hcell v hv => ?_
  rw [Option.mem_def.1 hv] at hcell
  exact hraw v (mem_operands_of_mem_cells hrow hcell)

theorem map_expressions_rowPhrases {payload : InsertPayload}
    (hraw : ∀ v ∈ payload.operands, v.RawFree) :
    (payload.cells.map rowPhrases).map expressions =
      payload.cells.map fun row => row.flatMap cellExpressions := by
  rw [List.map_map]
  refine List.map_congr_left fun row hrow => expressions_rowPhrases fun cell hcell v hv => ?_
  rw [Option.mem_def.1 hv] at hcell
  exact hraw v (mem_operands_of_mem_cells hrow hcell)

/-- The tuples have as many expressions as they should, where the widths of the cells of
each row add up to their number. -/
theorem length_expressions_iff {payload : InsertPayload}
    (hraw : ∀ v ∈ payload.operands, v.RawFree) :
    ((payload.cells.map rowPhrases).map fun tuple => (expressions tuple).length) =
        payload.arities ↔
      ∀ row ∈ payload.cells, (row.map cellWidth).sum = row.length := by
  have hlengths := congrArg (List.map List.length) (map_expressions_rowPhrases hraw)
  simp only [List.map_map, Function.comp_def, length_flatMap_cellExpressions] at hlengths
  rw [List.map_map, Function.comp_def, hlengths, ← payload.map_length_cells, List.map_inj_left]

theorem length_cells (payload : InsertPayload) :
    payload.cells.length = payload.rowLengths.length := by
  cases payload <;> simp [cells, namedCells, rowLengths]

/-- The field list is read as the names of the fields. -/
theorem readTuples_names {payload : InsertPayload} (hkeys : ∀ key ∈ payload.fields, IsKey key)
    (hne : payload.fields ≠ []) :
    readTuples payload.parts.fields =
      some [(codePhrases ", ").intercalate (payload.fields.map codePhrases)] := by
  have hfields : payload.parts.fields = tupleText payload.fields := by
    cases payload with
    | row entries => rw [parts, namedParts_eq hne]; rfl
    | rows list => rw [parts, namedParts_eq hne]; rfl
    | tuple cells => exact absurd rfl hne
    | tuples list => exact absurd rfl hne
  have hwritten := Written.joinWith (f := id) fun key hkey => (hkeys key hkey).written
  rw [List.map_id] at hwritten
  rw [hfields, readTuples, tupleText, hwritten.bracketed.readPhrases, Option.bind_some,
    (single_group _).pieces]
  rfl

/-- The field list is read as one name for each field. -/
theorem readTuples_fields {payload : InsertPayload} (hkeys : ∀ key ∈ payload.fields, IsKey key)
    (hne : payload.fields ≠ []) :
    ∃ tuple, readTuples payload.parts.fields = some [tuple] ∧
      (pieces tuple).length = payload.fields.length := by
  have hnames : ∀ names : List Text, (∀ key ∈ names, IsKey key) →
      ((names.map codePhrases).flatMap pieces).length = names.length := by
    intro names hkeys
    induction names with
    | nil => rfl
    | cons key names ih =>
      rw [List.map_cons, List.flatMap_cons, pieces_of_noComma (hkeys key (by simp)).noComma,
        List.singleton_append, List.length_cons, List.length_cons,
        ih fun name hname => hkeys name (by simp [hname])]
  refine ⟨_, readTuples_names hkeys hne, ?_⟩
  rw [pieces_intercalate (by simpa using hne), hnames _ hkeys]

end InsertPayload

/-! ## Assignments -/

namespace Assignments

/-- Assignments by field, or a list of such, with all of their entries. -/
inductive Assigns : Assignments → Row → Prop
  | fields (entries : Row) : Assigns (fields entries) entries
  | list (rows : List Row) : Assigns (list (rows.map fields)) rows.flatten

/-- A field with what stands behind it. -/
def assignment (key : Text) (e : List Phrase) : List Phrase :=
  dropEnds isGap (codePhrases (key ++ " = ") ++ e)

/-- What an entry is read as: the first expression of its operand stands behind the field,
the others are left alone. -/
def entryExpressions (key : Text) (v : Value) : List (List Phrase) :=
  match v.expressions with
  | [] => [assignment key []]
  | first :: rest => assignment key first :: rest

theorem length_entryExpressions (key : Text) (v : Value) :
    (entryExpressions key v).length = max 1 v.width := by
  rw [← v.length_expressions, entryExpressions]
  cases v.expressions with
  | nil => rfl
  | cons first rest => simp

/-- What stands in front of the expression is the field without its leading blanks. -/
theorem assignment_eq (key : Text) (e : List Phrase) :
    assignment key e = (codePhrases (key ++ " ")).dropWhile isGap ++
      leaf (.code '=') :: ((leaf (.code ' ') :: e).reverse.dropWhile isGap).reverse := by
  have hparts : codePhrases (key ++ " = ") ++ e =
      codePhrases (key ++ " ") ++ leaf (.code '=') :: leaf (.code ' ') :: e := by
    simp [codePhrases, leaves, codes, lit]
  rw [assignment, hparts]
  exact dropEnds_append_cons (by decide) _ _

theorem assignment_of_single (key : Text) {e : List Phrase} (h : Single e) :
    assignment key e = assignment key [] ++ leaf (.code ' ') :: e := by
  have hlast : (leaf (.code ' ') :: e).reverse.dropWhile isGap =
      (leaf (.code ' ') :: e).reverse := by
    refine dropWhile_eq_self fun p hp => h.last p ?_
    rw [List.head?_reverse, List.getLast?_cons] at hp
    rwa [List.getLast?_eq_some_getLast h.ne_nil] at hp ⊢
  have hblank : ([leaf (.code ' ')] : List Phrase).reverse.dropWhile isGap = [] := by decide
  rw [assignment_eq, assignment_eq, hlast, hblank]
  simp

/-- A piece that assigns an expression to the field of an entry. -/
def IsAssignment (piece : List Phrase) (entry : Text × Value) : Prop :=
  ∃ e, Single e ∧ piece = assignment entry.1 e

/-- A field alone assigns nothing. -/
theorem not_isAssignment_nil (entry : Text × Value) :
    ¬IsAssignment (assignment entry.1 []) entry := by
  rintro ⟨e, he, heq⟩
  have hlength := congrArg List.length (heq.trans (assignment_of_single entry.1 he))
  simp at hlength

/-- With one expression at most, an entry is one piece. -/
theorem entryExpressions_of_width_le {key : Text} {v : Value} (h : v.width ≤ 1) :
    entryExpressions key v = [assignment key (v.expressions.headD [])] := by
  rw [← v.length_expressions] at h
  unfold entryExpressions
  match hexpressions : v.expressions with
  | [] => rfl
  | [first] => rfl
  | first :: second :: rest =>
    rw [hexpressions] at h
    simp at h

theorem isAssignment_iff {entry : Text × Value} (hraw : entry.2.RawFree) (h : entry.2.width ≤ 1) :
    IsAssignment (assignment entry.1 (entry.2.expressions.headD [])) entry ↔
      entry.2.width = 1 := by
  rw [← entry.2.length_expressions] at h ⊢
  cases hexpressions : entry.2.expressions with
  | nil => simpa using not_isAssignment_nil entry
  | cons first rest =>
    rw [hexpressions, List.length_cons] at h
    have hfirst : first ∈ entry.2.expressions := by simp [hexpressions]
    refine iff_of_true ⟨first, Value.single_of_mem_expressions hraw hfirst, rfl⟩ ?_
    rw [List.length_cons]
    omega

/-- As many pieces as entries are one for each. -/
theorem width_le_of_length {entries : Row}
    (h : (entries.flatMap fun entry => entryExpressions entry.1 entry.2).length =
      entries.length) : ∀ entry ∈ entries, entry.2.width ≤ 1 := by
  have hatLeast : ∀ entries : Row, entries.length ≤
      (entries.flatMap fun entry => entryExpressions entry.1 entry.2).length := by
    intro entries
    induction entries with
    | nil => simp
    | cons entry rest ih =>
      rw [List.flatMap_cons, List.length_append, length_entryExpressions, List.length_cons]
      omega
  induction entries with
  | nil => simp
  | cons entry rest ih =>
    have hrest := hatLeast rest
    rw [List.flatMap_cons, List.length_append, length_entryExpressions, List.length_cons] at h
    rw [List.forall_mem_cons]
    exact ⟨by omega, ih (by omega)⟩

/-- Every entry is one assignment exactly if every operand is one expression. -/
theorem forall₂_isAssignment_iff {entries : Row} (hraw : ∀ entry ∈ entries, entry.2.RawFree) :
    List.Forall₂ IsAssignment
        (entries.flatMap fun entry => entryExpressions entry.1 entry.2) entries ↔
      ∀ entry ∈ entries, entry.2.width = 1 := by
  by_cases hle : ∀ entry ∈ entries, entry.2.width ≤ 1
  · rw [List.flatMap_congr fun entry hentry => entryExpressions_of_width_le (hle entry hentry),
      ← List.map_eq_flatMap, List.forall₂_map_left_iff, List.forall₂_same]
    exact forall₂_congr fun entry hentry => isAssignment_iff (hraw entry hentry) (hle entry hentry)
  · refine iff_of_false (fun h => hle (width_le_of_length h.length_eq)) fun h => hle ?_
    exact fun entry hentry => (h entry hentry).le

/-- What an entry is made of. -/
def entryPhrases (entry : Text × Value) : List Phrase :=
  codePhrases (entry.1 ++ " = ") ++ entry.2.phrases

section

variable {key : Text} {v : Value}

theorem written_entry (hkey : IsKey key) (hraw : v.RawFree) :
    Written (key ++ " = " ++ v.quote) (entryPhrases (key, v)) := by
  have hequals : Written "=" (codePhrases "=") := .of_codes (by simp [lit])
  have hright := hequals.append_separator (c := ' ') (.inr rfl) (.of_rawFree hraw)
  have hentry := hkey.written.append_separator (c := ' ') (.inr rfl) hright
  simpa [entryPhrases, lit, codePhrases, leaves, codes] using hentry

theorem expressions_assignment (hkey : IsKey key) {e : List Phrase}
    (he : ∀ p ∈ e, p.isComma = false) :
    expressions (codePhrases (key ++ " = ") ++ e) = [assignment key e] := by
  have hcommas : ∀ p ∈ codePhrases (key ++ " = ") ++ e, p.isComma = false := by
    intro p hp
    rw [show codePhrases (key ++ " = ") = codePhrases key ++ codePhrases " = " by
      simp [codePhrases, leaves, codes], List.append_assoc, List.mem_append, List.mem_append] at hp
    rcases hp with hp | hp | hp
    · exact hkey.noComma p hp
    · revert p
      decide
    · exact he p hp
  have hne : dropEnds isGap (codePhrases (key ++ " = ") ++ e) ≠ [] := by
    change assignment key e ≠ []
    rw [assignment_eq]
    simp
  rw [expressions, pieces_of_noComma hcommas]
  simpa [assignment] using hne

/-- An entry is read as its field with the first expression of its operand, and the other
expressions. -/
theorem expressions_entry (hkey : IsKey key) (hraw : v.RawFree) :
    expressions (entryPhrases (key, v)) = entryExpressions key v := by
  have hsingle : ∀ ps ∈ v.expressions, Single ps := fun ps => Value.single_of_mem_expressions hraw
  rw [entryPhrases, v.phrases_eq_intercalate, entryExpressions]
  cases hexpressions : v.expressions with
  | nil => exact expressions_assignment hkey (by simp)
  | cons first rest =>
    rw [hexpressions, List.forall_mem_cons] at hsingle
    rw [append_intercalate, expressions_intercalate, List.flatMap_cons,
      expressions_assignment hkey hsingle.1.noComma, flatMap_expressions_of_single hsingle.2]
    rfl

end

theorem written_part {entries : Row} (hkeys : ∀ entry ∈ entries, IsKey entry.1)
    (hraw : ∀ entry ∈ entries, entry.2.RawFree) :
    Written (fields entries).part ((codePhrases ", ").intercalate (entries.map entryPhrases)) :=
  Written.joinWith fun entry hentry => written_entry (hkeys entry hentry) (hraw entry hentry)

theorem expressions_part {entries : Row} (hkeys : ∀ entry ∈ entries, IsKey entry.1)
    (hraw : ∀ entry ∈ entries, entry.2.RawFree) :
    expressions ((codePhrases ", ").intercalate (entries.map entryPhrases)) =
      entries.flatMap fun entry => entryExpressions entry.1 entry.2 := by
  rw [expressions_intercalate, List.flatMap_map]
  exact List.flatMap_congr fun entry hentry =>
    expressions_entry (hkeys entry hentry) (hraw entry hentry)

/-- Entries are written as something, so a list leaves out those without entries only. -/
theorem nonempty_parts (rows : List Row) :
    Text.nonempty ((rows.map fields).map part) =
      (rows.filter fun entries => !entries.isEmpty).map fun entries => (fields entries).part := by
  have hempty : ∀ entries : Row, (fields entries).part.isEmpty = entries.isEmpty := by
    intro entries
    cases entries with
    | nil => rfl
    | cons entry rest => cases rest <;> simp [part, lit]
  rw [List.map_map, Text.nonempty, List.filter_map]
  simp only [Function.comp_def, hempty]

theorem flatMap_filter_nonempty {α : Type} (rows : List Row) (f : Text × Value → List α) :
    ((rows.filter fun entries => !entries.isEmpty).flatMap fun entries => entries.flatMap f) =
      rows.flatten.flatMap f := by
  induction rows with
  | nil => rfl
  | cons entries rows ih => cases entries <;> simp [ih]

/-- What stands behind `SET` is read as the expressions of its entries. -/
theorem exists_written_render {a : Assignments} {entries : Row} (ha : Assigns a entries)
    (hkeys : ∀ entry ∈ entries, IsKey entry.1) (hraw : ∀ entry ∈ entries, entry.2.RawFree) :
    ∃ ps, Written a.render ps ∧
      expressions ps = entries.flatMap fun entry => entryExpressions entry.1 entry.2 := by
  cases ha with
  | fields entries => exact ⟨_, written_part hkeys hraw, expressions_part hkeys hraw⟩
  | list rows =>
    have hrow : ∀ entries ∈ rows.filter fun entries => !entries.isEmpty,
        (∀ entry ∈ entries, IsKey entry.1) ∧ ∀ entry ∈ entries, entry.2.RawFree := by
      intro entries hmem
      have hflat : ∀ entry ∈ entries, entry ∈ rows.flatten := fun entry hentry =>
        List.mem_flatten.2 ⟨entries, List.mem_of_mem_filter hmem, hentry⟩
      exact ⟨fun entry hentry => hkeys entry (hflat entry hentry),
        fun entry hentry => hraw entry (hflat entry hentry)⟩
    have hwritten := Written.joinWith fun entries hmem =>
      written_part (hrow entries hmem).1 (hrow entries hmem).2
    rw [← nonempty_parts] at hwritten
    refine ⟨_, hwritten, ?_⟩
    rw [expressions_intercalate, List.flatMap_map, ← flatMap_filter_nonempty]
    exact List.flatMap_congr fun entries hmem =>
      expressions_part (hrow entries hmem).1 (hrow entries hmem).2

end Assignments

/-! ## Arity -/

/-- A tuple has as many expressions as its row should exactly where the lists among its
cells make up for each other, and `SET` has one assignment for each entry exactly where no
operand is a list but of one member. -/
theorem payload_arity {payload : InsertPayload} {a : Assignments} {entries : Row}
    (hraw : ∀ v ∈ payload.operands ++ entries.map Prod.snd, v.RawFree)
    (hkeys : ∀ key ∈ payload.fields ++ entries.map Prod.fst, IsKey key)
    (hcells : ∃ n ∈ payload.rowLengths, n ≠ 0) (ha : a.Assigns entries) :
    (payload.fields ≠ [] → ∃ names, readTuples payload.parts.fields = some [names] ∧
      (pieces names).length = payload.fields.length) ∧
    (∃ tuples, readTuples payload.parts.values = some tuples ∧
      tuples.length = payload.rowLengths.length ∧
      tuples.map expressions =
        payload.cells.map (fun row => row.flatMap InsertPayload.cellExpressions) ∧
      ((tuples.map fun tuple => (expressions tuple).length) = payload.arities ↔
        ∀ row ∈ payload.cells, (row.map InsertPayload.cellWidth).sum = row.length)) ∧
    ∃ ps, readPhrases a.render = some ps ∧
      expressions ps =
        entries.flatMap (fun entry => Assignments.entryExpressions entry.1 entry.2) ∧
      (List.Forall₂ Assignments.IsAssignment (expressions ps) entries ↔
        ∀ entry ∈ entries, entry.2.width = 1) := by
  obtain ⟨hpayload, hentries⟩ := List.forall_mem_append.1 hraw
  obtain ⟨hfields, hnames⟩ := List.forall_mem_append.1 hkeys
  rw [List.forall_mem_map] at hentries hnames
  refine ⟨InsertPayload.readTuples_fields hfields,
    ⟨payload.cells.map InsertPayload.rowPhrases, InsertPayload.readTuples_values hpayload hcells,
      ?_, InsertPayload.map_expressions_rowPhrases hpayload,
      InsertPayload.length_expressions_iff hpayload⟩, ?_⟩
  · rw [List.length_map, payload.length_cells]
  · obtain ⟨ps, hwritten, hps⟩ := Assignments.exists_written_render ha hnames hentries
    refine ⟨ps, hwritten.readPhrases, hps, ?_⟩
    rw [hps]
    exact Assignments.forall₂_isAssignment_iff hentries

/-- Commas, quotes and brackets in a text, lists of one member, and a row without entries. -/
def mixedRows : InsertPayload :=
  .rows [[("a", .text "x, ('y"), ("b", .list [.int 1])], [],
    [("b", .null), ("c", .list [.list [.int 1, .int 2]])]]

def mixedAssignments : List Row :=
  [[("a", .text "x, 'y"), ("b", .list [.bytes [0, 255]])], [], [("c", .bool true)]]

theorem payload_arity_mixed :
    (readTuples mixedRows.parts.values).map (·.map fun tuple => (expressions tuple).length) =
        some [3, 3, 3] ∧
      ((readPhrases (Assignments.list (mixedAssignments.map .fields)).render).map
        fun ps => (expressions ps).length) = some 3 := by
  obtain ⟨-, ⟨tuples, htuples, -, -, hcells⟩, ps, hps, -, hset⟩ :=
    @payload_arity mixedRows _ _ (by decide) (by decide) (by decide) (.list mixedAssignments)
  have hwidths : ∀ row ∈ mixedRows.cells,
      (row.map InsertPayload.cellWidth).sum = row.length := by decide
  refine ⟨?_, ?_⟩
  · rw [htuples, Option.map_some, hcells.2 hwidths]
    decide
  · rw [hps, Option.map_some, (hset.2 (by decide)).length_eq]
    decide

/-- A list of two members in a cell is two expressions for one field, an empty one is none,
and behind `SET` the second member is an expression without a field. -/
theorem payload_arity_lists :
    (InsertPayload.row [("a", .list [.int 1, .int 2])]).parts = ⟨"(a)", "(1, 2)"⟩ ∧
    (readTuples "(1, 2)").map (·.map fun tuple => (expressions tuple).length) = some [2] ∧
    (InsertPayload.tuple [.int 1, .list []]).parts = ⟨[], "(1, )"⟩ ∧
    (readTuples "(1, )").map (·.map fun tuple => (expressions tuple).length) = some [1] ∧
    (Assignments.fields [("a", .list [.int 1, .int 2])]).render = lit "a = 1, 2" ∧
    ((readPhrases "a = 1, 2").map fun ps => (expressions ps).length) = some 2 := by
  decide +kernel

end SqlCompose
