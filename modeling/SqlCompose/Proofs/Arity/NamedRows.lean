import SqlCompose.Proofs.Arity.Payloads

/-!
# Named rows are read back

The field list and the rows of an `INSERT` with named fields say all that
there is to say about its payload: which fields there are, and for each row
and field the value or that there is none.

* `members_intercalate` reads what stands between commas as it was written,
  outer blanks of a name included.
* `firstOccurrences_fieldList` is about the field list: it grows at its end,
  by the keys that it does not hold yet.
* `fillsCell_cell` is about one cell.  No operand but raw SQL is written as
  the word `DEFAULT` (`quote_ne_default`), so the word means that a row has
  no entry.
* `fieldList_of_known` says which rows have no say in the field list.

Main result: `named_rows_read_back`.
-/

namespace SqlCompose

open Token Phrase Value

/-! ## Reading -/

namespace Phrase

/-- Phrases as they are written. -/
def textOf (ps : List Phrase) : Text := spellAll (tokensOfAll ps)

/-- Phrases without the space that stands behind a comma. -/
def behindComma : List Phrase → List Phrase
  | leaf (code ' ') :: ps => ps
  | ps => ps

/-- The texts between commas, of which each has a space behind it. -/
def members (ps : List Phrase) : List Text :=
  match ps.splitOnP isComma with
  | first :: rest => textOf first :: rest.map fun piece => textOf (behindComma piece)
  | [] => []

/-- What is joined with commas is read back one by one. -/
theorem members_intercalate {pss : List (List Phrase)} (hne : pss ≠ [])
    (h : ∀ ps ∈ pss, ∀ p ∈ ps, p.isComma = false) :
    members ((codePhrases ", ").intercalate pss) = pss.map textOf := by
  cases pss with
  | nil => exact absurd rfl hne
  | cons first rest =>
    have hsplit : ((codePhrases ", ").intercalate (first :: rest)).splitOnP isComma =
        first :: rest.map (leaf (code ' ') :: ·) :=
      splitOnP_intercalate rfl rfl h
    rw [members, hsplit]
    simp only [List.map_cons, List.map_map, Function.comp_def, behindComma]

end Phrase

/-- The tuples of a text, each as the texts between its commas. -/
def readRows (t : Text) : Option (List (List Text)) := (readTuples t).map (·.map members)

example : readRows "(a,  b), ('x, (y', DEFAULT)" =
    some [[lit "a", lit " b"], [lit "'x, (y'", lit "DEFAULT"]] := by
  decide +kernel

/-! ## The field list -/

/-- The keys of rows, in order and as often as they stand there. -/
def rowKeys (rows : List Row) : List Text := rows.flatMap fun row => row.map Prod.fst

/-- Keys in the order of their first occurrence, each once. -/
structure FirstOccurrences (keys fields : List Text) : Prop where
  nodup : fields.Nodup
  mem_iff : ∀ field, field ∈ fields ↔ field ∈ keys
  ordered : fields.Pairwise fun f g => keys.idxOf f < keys.idxOf g

/-- A key is put at the end unless it is there. -/
theorem FirstOccurrences.addField {keys fields : List Text} (h : FirstOccurrences keys fields)
    (key : Text) : FirstOccurrences (keys ++ [key]) (InsertPayload.addField fields key) := by
  have hindex : ∀ field ∈ fields, (keys ++ [key]).idxOf field = keys.idxOf field := by
    intro field hfield
    exact List.idxOf_append_of_mem ((h.mem_iff field).1 hfield)
  have hordered : fields.Pairwise fun f g => (keys ++ [key]).idxOf f < (keys ++ [key]).idxOf g := by
    apply h.ordered.imp_of_mem
    intro f g hf hg hlt
    rw [hindex f hf, hindex g hg]
    exact hlt
  unfold InsertPayload.addField
  by_cases hmem : key ∈ fields
  · rw [if_pos hmem]
    refine ⟨h.nodup, fun field => ?_, hordered⟩
    rw [List.mem_append, List.mem_singleton, ← h.mem_iff]
    constructor
    · exact Or.inl
    · intro hfield
      rcases hfield with hfield | hfield
      · exact hfield
      · rw [hfield]
        exact hmem
  · rw [if_neg hmem]
    have hnew : key ∉ keys := fun hkey => hmem ((h.mem_iff key).2 hkey)
    refine ⟨?_, fun field => ?_, ?_⟩
    · simpa using h.nodup.concat hmem
    · rw [List.mem_append, List.mem_append, h.mem_iff]
    · rw [List.pairwise_append]
      refine ⟨hordered, List.pairwise_singleton _ _, ?_⟩
      intro f hf g hg
      rw [List.mem_singleton.1 hg, hindex f hf, List.idxOf_append_of_notMem hnew]
      have hlt : keys.idxOf f < keys.length := List.idxOf_lt_length_of_mem ((h.mem_iff f).1 hf)
      omega

namespace InsertPayload

/-- The field list holds every key once, in the order of first occurrence. -/
theorem firstOccurrences_fieldList (rows : List Row) :
    FirstOccurrences (rowKeys rows) (fieldList rows) := by
  have hfold : ∀ keys : List Text, FirstOccurrences keys (keys.foldl addField []) := by
    intro keys
    induction keys using List.reverseRecOn with
    | nil => exact ⟨.nil, by simp, .nil⟩
    | append_singleton keys key ih =>
      rw [List.foldl_append]
      exact ih.addField key
  exact hfold (rowKeys rows)

/-- Names that the field list holds are not put behind it again. -/
theorem foldl_addField_of_subset {fields names : List Text} (h : ∀ name ∈ names, name ∈ fields) :
    names.foldl addField fields = fields := by
  induction names with
  | nil => rfl
  | cons name rest ih =>
    rw [List.forall_mem_cons] at h
    rw [List.foldl_cons, addField, if_pos h.1, ih h.2]

/-- A row that introduces no field has no say in the field list. -/
theorem fieldList_of_known {before behind : List Row} {row : Row}
    (h : ∀ entry ∈ row, entry.1 ∈ rowKeys before) :
    fieldList (before ++ row :: behind) = fieldList (before ++ behind) := by
  have hknown : ∀ name ∈ row.map Prod.fst, name ∈ fieldList before := by
    rw [List.forall_mem_map]
    intro entry hentry
    exact ((firstOccurrences_fieldList before).mem_iff entry.1).2 (h entry hentry)
  have hskip := foldl_addField_of_subset hknown
  unfold fieldList at hskip ⊢
  rw [List.flatMap_append, List.flatMap_append, List.flatMap_cons, List.foldl_append,
    List.foldl_append, List.foldl_append, hskip]

end InsertPayload

/-! ## Cells -/

/-- What stands in the tuple of a row under a field: the word `DEFAULT` if the row has no
entry for it, and else the literal of the first value that it has. -/
structure FillsCell (row : Row) (field text : Text) : Prop where
  default_iff : text = lit "DEFAULT" ↔ ∀ entry ∈ row, entry.1 ≠ field
  quoted : ∀ before v behind, row = before ++ (field, v) :: behind →
    (∀ entry ∈ before, entry.1 ≠ field) → text = v.quote

/-- Rows that have the same first value under every field. -/
def SameCells (row row' : Row) : Prop := ∀ field, row.lookup field = row'.lookup field

/-- Entries for different fields are found in any order. -/
theorem SameCells.of_perm {row row' : Row} (h : row.Perm row') (hnodup : (row.map Prod.fst).Nodup) :
    SameCells row row' := by
  intro field
  induction h with
  | nil => rfl
  | cons entry _ ih =>
    rw [List.map_cons, List.nodup_cons] at hnodup
    rw [List.lookup_cons, List.lookup_cons, ih hnodup.2]
  | swap entry entry' row =>
    have hne : entry'.1 ≠ entry.1 := by
      intro heq
      simp [heq] at hnodup
    rw [List.lookup_cons, List.lookup_cons, List.lookup_cons, List.lookup_cons]
    by_cases hfield : field = entry.1
    · have hother : (field == entry'.1) = false := by
        rw [hfield, beq_eq_false_iff_ne]
        exact fun heq => hne heq.symm
      rw [hother]
    · have hother : (field == entry.1) = false := by simpa using hfield
      rw [hother]
  | trans hfirst _ ih ih' =>
    have hmid := (hfirst.map Prod.fst).nodup_iff.1 hnodup
    rw [ih hnodup, ih' hmid]

/-- A number is no word. -/
theorem numeral_ne_default {negative : Prop} [Decidable negative] {t digits : Text}
    (ht : t = (if negative then ['-'] else []) ++ digits)
    (h : ∀ c ∈ digits, isNumeral c = true) : t ≠ lit "DEFAULT" := by
  intro heq
  have hmem : 'D' ∈ (if negative then ['-'] else []) ++ digits := by
    rw [← ht, heq]
    decide
  rcases List.mem_append.1 hmem with hmem | hmem
  · split at hmem
    · simp at hmem
    · simp at hmem
  · exact absurd (h 'D' hmem) (by decide)

theorem apostrophes_ne_default (body : Text) : apostrophes body ≠ lit "DEFAULT" := by
  simp [apostrophes, lit]

/-- A scalar is not written as the word that stands for no value. -/
theorem Value.quote_ne_default : ∀ v : Value, v.RawFree → v.isList = false →
    v.quote ≠ lit "DEFAULT"
  | null, _, _ => by decide
  | bool b, _, _ => by cases b <;> decide
  | int n, _, _ => by
    obtain ⟨digits, heq, hdigits⟩ := Text.ofInt_eq n.toInt
    exact numeral_ne_default heq hdigits
  | float x, _, _ => by
    rw [quote, quoteFloat]
    cases x.view with
    | nan => exact apostrophes_ne_default _
    | infinite negative => exact apostrophes_ne_default _
    | finite negative m e =>
      obtain ⟨digits, heq, hdigits⟩ := Binary64.Layout.sql_write_eq negative m e
      exact numeral_ne_default heq hdigits
  | text t, _, _ => by
    rw [quote, Text.quote]
    split
    · simp [lit]
    · simp [lit]
  | bytes data, _, _ => by simp [quote, quoteBytes, apostrophes, lit]
  | date d, _, _ => apostrophes_ne_default _
  | timestamp t, _, _ => apostrophes_ne_default _
  | timestampUtc t, _, _ => apostrophes_ne_default _
  | list items, _, hlist => by simp [isList] at hlist
  | raw sql, h, _ => by simp [RawFree, verbatims] at h

namespace InsertPayload

/-- A row fills its cell under every field. -/
theorem fillsCell_cell {row : Row} (h : ∀ entry ∈ row, entry.2.RawFree ∧ entry.2.isList = false)
    (field : Text) : FillsCell row field (cell row field) := by
  rw [cell_eq_cellText]
  cases hlookup : row.lookup field with
  | none =>
    have hnone : ∀ entry ∈ row, entry.1 ≠ field := by
      intro entry hentry heq
      have hne := List.lookup_eq_none_iff.1 hlookup entry hentry
      simp [heq] at hne
    refine ⟨iff_of_true rfl hnone, ?_⟩
    intro before v behind hrow _
    exact absurd rfl (hnone (field, v) (by simp [hrow]))
  | some v =>
    obtain ⟨before, behind, hrow, hbefore⟩ := List.lookup_eq_some_iff.1 hlookup
    have hentry : (field, v) ∈ row := by simp [hrow]
    have hscalar := h (field, v) hentry
    refine ⟨iff_of_false (quote_ne_default v hscalar.1 hscalar.2) ?_, ?_⟩
    · intro hnone
      exact hnone (field, v) hentry rfl
    · intro before' v' behind' hrow' hbefore'
      have hfirst : row.lookup field = some v' := by
        apply List.lookup_eq_some_iff.2
        refine ⟨before', behind', hrow', fun entry hentry => ?_⟩
        simpa using (hbefore' entry hentry).symm
      rw [hlookup, Option.some.injEq] at hfirst
      rw [hfirst]
      rfl

/-! ## Reading back -/

/-- The rows of a payload whose fields have names. -/
def namedRows : InsertPayload → Option (List Row)
  | row entries => some [entries]
  | rows each => some each
  | tuple _ | tuples _ => none

section

variable {payload : InsertPayload} {rows : List Row}

theorem of_namedRows (h : payload.namedRows = some rows) :
    payload.parts = namedParts rows ∧ payload.fields = fieldList rows ∧
      payload.cells = namedCells rows ∧ payload.rowLengths = rows.map List.length ∧
      payload.operands = rows.flatMap fun row => row.map Prod.snd := by
  cases payload with
  | row entries =>
    obtain rfl : [entries] = rows := by simpa [namedRows] using h
    exact ⟨rfl, rfl, rfl, rfl, by simp [operands]⟩
  | rows each =>
    obtain rfl : each = rows := by simpa [namedRows] using h
    exact ⟨rfl, rfl, rfl, rfl, rfl⟩
  | tuple | tuples => simp [namedRows] at h

/-- The field list is read as the fields, as they were written. -/
theorem readRows_fields (hkeys : ∀ key ∈ payload.fields, IsKey key) (hne : payload.fields ≠ []) :
    readRows payload.parts.fields = some [payload.fields] := by
  have hcommas : ∀ ps ∈ payload.fields.map codePhrases, ∀ p ∈ ps, p.isComma = false := by
    rw [List.forall_mem_map]
    exact fun key hkey => (hkeys key hkey).noComma
  have htexts : (payload.fields.map codePhrases).map textOf = payload.fields := by
    simp only [List.map_map, Function.comp_def, textOf, spellAll_codePhrases, List.map_id_fun',
      id_eq]
  rw [readRows, readTuples_names hkeys hne, Option.map_some, List.map_singleton,
    members_intercalate (by simpa using hne) hcommas, htexts]

/-- A row of scalars is read as the texts of its cells. -/
theorem members_rowPhrases {cells : List (Option Value)} (hne : cells ≠ [])
    (h : ∀ cell ∈ cells, ∀ v ∈ cell, v.RawFree ∧ v.isList = false) :
    members (rowPhrases cells) = cells.map cellText := by
  have hcommas : ∀ cell ∈ cells, ∀ p ∈ cellPhrases cell, p.isComma = false := by
    intro cell hcell
    cases cell with
    | none => exact (single_codePhrases (by decide) (by simp [lit, isBlank])).noComma
    | some v =>
      have hscalar := h (some v) hcell v rfl
      exact (single_phrases v hscalar.1 hscalar.2).noComma
  have htexts : ∀ cell ∈ cells, textOf (cellPhrases cell) = cellText cell := by
    intro cell hcell
    exact (written_cell fun v hv => (h cell hcell v hv).1).spelled
  rw [rowPhrases, members_intercalate (by simpa using hne) (by simpa using hcommas), List.map_map]
  exact List.map_congr_left htexts

/-- The rows are read as the cells of each under every field. -/
theorem readRows_values (hpayload : payload.namedRows = some rows) (hrow : ∃ row ∈ rows, row ≠ [])
    (hvalues : ∀ row ∈ rows, ∀ entry ∈ row, entry.2.RawFree ∧ entry.2.isList = false) :
    readRows payload.parts.values =
      some (rows.map fun row => (fieldList rows).map (cell row)) := by
  obtain ⟨-, -, hcells, hlengths, hoperands⟩ := of_namedRows hpayload
  have hscalars : ∀ v ∈ payload.operands, v.RawFree ∧ v.isList = false := by
    rw [hoperands]
    simpa using fun v row hmem key hentry => hvalues row hmem (key, v) hentry
  have hlength : ∃ n ∈ payload.rowLengths, n ≠ 0 := by
    rw [hlengths]
    simpa using hrow
  have hfields : fieldList rows ≠ [] := by
    obtain ⟨row, hmem, hne⟩ := hrow
    exact fieldList_ne_nil hmem hne
  have hmembers : ∀ cells ∈ payload.cells, members (rowPhrases cells) = cells.map cellText := by
    intro cells hmem
    apply members_rowPhrases
    · rw [hcells] at hmem
      obtain ⟨row, -, rfl⟩ := List.mem_map.1 hmem
      simpa using hfields
    · intro cell hcell v hv
      rw [Option.mem_def.1 hv] at hcell
      exact hscalars v (mem_operands_of_mem_cells hmem hcell)
  rw [readRows, readTuples_values (fun v hv => (hscalars v hv).1) hlength, Option.map_some,
    List.map_map]
  have hrows : payload.cells.map (members ∘ rowPhrases) =
      payload.cells.map fun cells => cells.map cellText := List.map_congr_left hmembers
  rw [hrows, hcells, namedCells, List.map_map]
  simp only [Function.comp_def, List.map_map, ← cell_eq_cellText]

end

end InsertPayload

/-- A row that introduces no field can be exchanged for one with the same cells. -/
theorem namedParts_of_sameCells {before behind : List Row} {row row' : Row}
    (hknown : ∀ entry ∈ row, entry.1 ∈ rowKeys before) (hsame : SameCells row row') :
    InsertPayload.namedParts (before ++ row' :: behind) =
      InsertPayload.namedParts (before ++ row :: behind) := by
  have hknown' : ∀ entry ∈ row', entry.1 ∈ rowKeys before := by
    intro entry hentry
    by_contra hnew
    have hnone : row.lookup entry.1 = none := by
      apply List.lookup_eq_none_iff.2
      intro entry' hentry'
      simp only [bne_iff_ne, ne_eq]
      intro heq
      apply hnew
      rw [heq]
      exact hknown entry' hentry'
    rw [hsame entry.1] at hnone
    have hne := List.lookup_eq_none_iff.1 hnone entry hentry
    simp at hne
  have hcells : InsertPayload.cell row' = InsertPayload.cell row := by
    funext field
    rw [InsertPayload.cell_eq_cellText, InsertPayload.cell_eq_cellText, hsame field]
  unfold InsertPayload.namedParts
  rw [InsertPayload.fieldList_of_known hknown, InsertPayload.fieldList_of_known hknown']
  simp only [List.map_append, List.map_cons, hcells]

/-- The field list is read as the keys of all rows, each once and in the order of first
occurrence, and the rows as one tuple each, of which every text fills its cell.  Of a row that
introduces no field nothing counts but the first value for each field. -/
theorem named_rows_read_back {payload : InsertPayload} {rows : List Row}
    (hpayload : payload.namedRows = some rows) (hrow : ∃ row ∈ rows, row ≠ [])
    (hkeys : ∀ row ∈ rows, ∀ entry ∈ row, IsKey entry.1)
    (hvalues : ∀ row ∈ rows, ∀ entry ∈ row, entry.2.RawFree ∧ entry.2.isList = false) :
    (∃ fields tuples,
      readRows payload.parts.fields = some [fields] ∧
      readRows payload.parts.values = some tuples ∧
      FirstOccurrences (rowKeys rows) fields ∧
      List.Forall₂ (fun row tuple => List.Forall₂ (FillsCell row) fields tuple) rows tuples) ∧
    ∀ before row behind, rows = before ++ row :: behind →
      (∀ entry ∈ row, entry.1 ∈ rowKeys before) →
      ∀ row', SameCells row row' →
        (InsertPayload.rows (before ++ row' :: behind)).parts = payload.parts := by
  obtain ⟨hparts, hfields, -⟩ := InsertPayload.of_namedRows hpayload
  have hfirst := InsertPayload.firstOccurrences_fieldList rows
  constructor
  · refine ⟨InsertPayload.fieldList rows, _, ?_,
      InsertPayload.readRows_values hpayload hrow hvalues, hfirst, ?_⟩
    · rw [← hfields]
      apply InsertPayload.readRows_fields
      · rw [hfields]
        intro key hkey
        obtain ⟨row, hmem, hname⟩ := List.mem_flatMap.1 ((hfirst.mem_iff key).1 hkey)
        obtain ⟨entry, hentry, rfl⟩ := List.mem_map.1 hname
        exact hkeys row hmem entry hentry
      · obtain ⟨row, hmem, hne⟩ := hrow
        rw [hfields]
        exact InsertPayload.fieldList_ne_nil hmem hne
    · rw [List.forall₂_map_right_iff, List.forall₂_same]
      intro row hmem
      rw [List.forall₂_map_right_iff, List.forall₂_same]
      exact fun field _ => InsertPayload.fillsCell_cell (hvalues row hmem) field
  · intro before row behind heq hknown row' hsame
    rw [hparts, heq]
    exact namedParts_of_sameCells hknown hsame

/-- Names with blanks, a repeated field, a row without entries, and texts that hold commas,
brackets, quotes and the word `DEFAULT`. -/
def scatteredRows : List Row :=
  [[(" a", .text "DEFAULT, ('x"), ("b c", .null), (" a", .int 1)], [],
    [("d ", .bytes [0]), ("b c", .text ")")], [("b c", .int 2), (" a", .bool true)]]

/-- The same rows, the last of them with its entries the other way round. -/
def turnedRows : List Row :=
  scatteredRows.take 3 ++ [([(" a", .bool true), ("b c", .int 2)] : Row)]

theorem named_rows_read_back_scattered :
    (∃ fields tuples,
      readRows (InsertPayload.rows scatteredRows).parts.fields = some [fields] ∧
      readRows (InsertPayload.rows scatteredRows).parts.values = some tuples ∧
      FirstOccurrences [" a", "b c", " a", "d ", "b c", "b c", " a"] fields ∧
      tuples.length = 4) ∧
    (InsertPayload.rows turnedRows).parts = (InsertPayload.rows scatteredRows).parts := by
  obtain ⟨⟨fields, tuples, hfields, hvalues, hfirst, htuples⟩, hexchange⟩ :=
    @named_rows_read_back (.rows scatteredRows) scatteredRows rfl (by decide) (by decide)
      (by decide)
  refine ⟨⟨fields, tuples, hfields, hvalues, hfirst, htuples.length_eq.symm⟩, ?_⟩
  exact hexchange (scatteredRows.take 3) _ [] rfl (by decide) _
    (.of_perm (.swap _ _ _) (by decide))

end SqlCompose
