import SqlCompose.Proofs.Outline.Segments

/-!
# Clauses that are written are read back

`Clauses.write` puts the clauses of a `SELECT` one behind the other, and `read` finds
them again: whichever of them are there, none is merged with another, moved or
lost (`Clear.read_write`).

The clauses have to be `Clear`.  The words that a statement is cut at may stand in
its joins alone, which begin with one of their own.  Literals may hold anything.
-/

namespace SqlCompose

namespace Outline

variable {t fields count : Text} {us table : List Word} {distinct : Bool}
  {joined rest : List Segment} {filter groupBy having orderBy limit : Option (List Word)}

theorem words_solid (ht : ∀ c ∈ t, c ≠ '\'' ∧ isBlank c = false) : words ' ' t = [⟨' ', t⟩] := by
  rw [words, (wordsFrom_solid rfl ht).1]

theorem words_letters (ht : t.all Char.isAlpha = true) : words ' ' t = [⟨' ', t⟩] :=
  words_solid (solid_of_letters ht)

/-! ## Reading -/

/-- The clauses behind the table and the joins. -/
def trailing (filter groupBy having orderBy limit : Option (List Word)) :
    List (Text × Option (List Word)) :=
  [("WHERE", filter), ("GROUP", groupBy), ("HAVING", having), ("ORDER", orderBy), ("LIMIT", limit)]

/-- Joins end where the first other keyword stands. -/
theorem separate_joins (hjoined : ∀ s ∈ joined, s.keyword ∈ joinWords)
    (hrest : ∀ s ∈ rest, s.keyword ∉ joinWords) :
    (joined ++ rest).takeWhile (fun s => joinWords.contains s.keyword) = joined ∧
      (joined ++ rest).dropWhile (fun s => joinWords.contains s.keyword) = rest := by
  refine ⟨?_, ?_⟩
  · rw [List.takeWhile_append_of_pos (by simpa using hjoined), List.takeWhile_eq_nil_iff.2,
      List.append_nil]
    intro hlength
    simpa using hrest _ (List.get_mem rest ⟨0, hlength⟩)
  · rw [List.dropWhile_append_of_pos (by simpa using hjoined), List.dropWhile_eq_self_iff]
    intro hlength
    simpa using hrest _ (List.getElem_mem hlength)

theorem keyword_of_mem_trailing {s : Segment}
    (hs : s ∈ optionals (trailing filter groupBy having orderBy limit)) :
    s.keyword ∉ joinWords := by
  have hkeywords : ∀ k ∈ (["WHERE", "GROUP", "HAVING", "ORDER", "LIMIT"] : List Text),
      k ∉ joinWords := by decide
  exact hkeywords _ (keyword_of_mem_optionals hs)

/-- Joins and the clauses behind them are told apart, whichever of them are there. -/
theorem readBehind_trailing {c : Clauses} (hjoined : ∀ s ∈ joined, s.keyword ∈ joinWords) :
    readBehind c (joined ++ optionals (trailing filter groupBy having orderBy limit)) =
      { c with
        joins := body (joined.flatMap Segment.words)
        filter := body (filter.getD [])
        groupBy := body (groupBy.getD []).tail
        having := body (having.getD [])
        orderBy := body (orderBy.getD []).tail
        limit := body (limit.getD [])
        rest := [] } := by
  have hbehind : ∀ s ∈ optionals (trailing filter groupBy having orderBy limit),
      s.keyword ∉ joinWords := fun s hs => keyword_of_mem_trailing hs
  obtain ⟨htake, hdrop⟩ := separate_joins hjoined hbehind
  rw [readBehind, htake, hdrop, trailing]
  simp (disch := (simp only [List.map]; decide)) only [take_optionals]
  rfl

theorem wordsOf_top (hcount : ∀ c ∈ count, c ≠ '\'' ∧ isBlank c = false) (hne : count ≠ []) :
    wordsOf (Text.clause "TOP" count) = [⟨' ', "TOP"⟩, ⟨' ', count⟩] := by
  have hletters : (lit "TOP").all Char.isAlpha = true := by decide
  have hcomplete := (wordsFrom_solid (p := .start) rfl (solid_of_letters hletters)).2
  rw [Text.clause, if_neg (by simpa using hne), wordsOf_of_ne_nil (by simp),
    words_blank ' ' hcomplete rfl, words_letters hletters, words_solid hcount]
  rfl

/-- What stands in front of the table is told apart, too. -/
theorem read_leading {sql : Text} (hcount : ∀ c ∈ count, c ≠ '\'' ∧ isBlank c = false)
    (hfree : count ∉ clauseWords) (hfields : Whole clauseWords fields)
    (hwords : words ' ' sql = ⟨' ', "SELECT"⟩ :: (wordsOf (distinctClause distinct) ++
      (wordsOf (Text.clause "TOP" count) ++ (wordsOf fields ++ us))))
    (hus : cut us = ([], ⟨' ', "FROM", table⟩ :: rest)) :
    read sql =
      readBehind { distinct := distinct, top := count, fields := fields, table := body table }
        rest := by
  have hfirst : ∀ w ∈ [(⟨' ', "SELECT"⟩ : Word)], w.text ∉ clauseWords := by
    simp only [List.forall_mem_singleton]
    decide
  have hselect : ∀ ws, cut (⟨' ', "SELECT"⟩ :: ws) =
      (⟨' ', "SELECT"⟩ :: (cut ws).1, (cut ws).2) := cut_append_free hfirst
  have hkeyword : ∀ {k : Text}, k ∈ clauseWords → ∀ ws, cut (⟨' ', k⟩ :: ws) =
      ([], ⟨' ', k, (cut ws).1⟩ :: (cut ws).2) := fun hk ws => cut_keyword hk ' ' ws
  have hplain : wordsOf (distinctClause false) = [] := rfl
  have hdistinct : wordsOf (distinctClause true) = [⟨' ', "DISTINCT"⟩] :=
    words_letters (t := "DISTINCT") (by decide)
  rw [← body_wordsOf fields, read, hwords, hselect]
  -- The columns belong to the segment of `TOP`, or to that of `DISTINCT`, or to none.
  by_cases hne : count = []
  · have htop : wordsOf (Text.clause "TOP" count) = [] := by
      rw [hne]
      rfl
    have hrest : cut (wordsOf fields ++ us) = (wordsOf fields, ⟨' ', "FROM", table⟩ :: rest) := by
      rw [cut_append_free hfields.wordsOf, hus, List.append_nil]
    rw [htop, List.nil_append, hne]
    cases distinct with
    | false =>
      rw [hplain, List.nil_append, hrest]
      rfl
    | true =>
      rw [hdistinct, List.singleton_append, hkeyword (by decide), hrest]
      rfl
  · have hone : body [⟨' ', count⟩] = count := by simp [body]
    have hrest : cut (⟨' ', count⟩ :: (wordsOf fields ++ us)) =
        (⟨' ', count⟩ :: wordsOf fields, ⟨' ', "FROM", table⟩ :: rest) := by
      rw [← List.cons_append, cut_append_free (List.forall_mem_cons.2 ⟨hfree, hfields.wordsOf⟩),
        hus, List.append_nil]
    rw [wordsOf_top hcount hne, List.cons_append, List.singleton_append]
    conv_rhs => rw [← hone]
    cases distinct with
    | false =>
      rw [hplain, List.nil_append, hkeyword (by decide), hrest]
      rfl
    | true =>
      rw [hdistinct, List.singleton_append, hkeyword (by decide), hkeyword (by decide), hrest]
      rfl

/-- The second word of `GROUP BY` and `ORDER BY`. -/
def secondWord : Word := ⟨' ', "BY"⟩

/-- Each clause behind the joins is a segment of its own, or none. -/
theorem cut_trailing {w g h o l : Text} (hw : Whole clauseWords w) (hg : Whole clauseWords g)
    (hh : Whole clauseWords h) (ho : Whole clauseWords o) (hl : Whole clauseWords l) :
    cut (wordsOf (Text.clause "WHERE" w) ++ (wordsOf (Text.clause "GROUP BY" g) ++
      (wordsOf (Text.clause "HAVING" h) ++ (wordsOf (Text.clause "ORDER BY" o) ++
        (wordsOf (Text.clause "LIMIT" l) ++ []))))) =
      ([], optionals (trailing (following [] w) (following [secondWord] g) (following [] h)
        (following [secondWord] o) (following [] l))) := by
  have hsecond : ∀ v ∈ [secondWord], v.text ∉ clauseWords := by
    simp only [List.forall_mem_singleton]
    decide
  -- From the last clause to the first, so that each is cut apart from what is behind it.
  have hnone : cut [] = ([], optionals []) := rfl
  have hlimit := cut_clause "LIMIT" rfl rfl (by decide) (List.forall_mem_nil _) hl hnone
  have horder := cut_clause "ORDER BY" rfl rfl (by decide) hsecond ho hlimit
  have hhaving := cut_clause "HAVING" rfl rfl (by decide) (List.forall_mem_nil _) hh horder
  have hgroup := cut_clause "GROUP BY" rfl rfl (by decide) hsecond hg hhaving
  exact cut_clause "WHERE" rfl rfl (by decide) (List.forall_mem_nil _) hw hgroup

/-! ## Writing and reading -/

namespace Clauses

/-- What a `SELECT` is put together from. -/
def pieces (c : Clauses) : List Text :=
  ["SELECT", distinctClause c.distinct, Text.clause "TOP" c.top, c.fields, "FROM", c.table, c.joins,
    Text.clause "WHERE" c.filter,
    Text.spaced [Text.clause "GROUP BY" c.groupBy, Text.clause "HAVING" c.having],
    Text.clause "ORDER BY" c.orderBy, Text.clause "LIMIT" c.limit]

/-- The `SELECT` that has these clauses. -/
def write (c : Clauses) : Text := Text.spaced c.pieces

/-- Clauses that are not mistaken for others when they are written: only joins have words that
a `SELECT` is cut at, they begin with one, and they have no others. -/
structure Clear (c : Clauses) : Prop where
  top : ∀ char ∈ c.top, char ≠ '\'' ∧ isBlank char = false
  counted : c.top ∉ clauseWords
  fields : Whole clauseWords c.fields
  table : Whole clauseWords c.table
  joins : Whole [] c.joins
  joins_front : (cut (wordsOf c.joins)).1 = []
  joins_keyword : ∀ s ∈ (cut (wordsOf c.joins)).2, s.keyword ∈ joinWords
  filter : Whole clauseWords c.filter
  groupBy : Whole clauseWords c.groupBy
  having : Whole clauseWords c.having
  orderBy : Whole clauseWords c.orderBy
  limit : Whole clauseWords c.limit
  rest : c.rest = []

variable {c : Clauses}

/-- The words of a `SELECT` are those of its clauses. -/
theorem Clear.words_write (h : c.Clear) :
    words ' ' c.write = ⟨' ', "SELECT"⟩ :: (wordsOf (distinctClause c.distinct) ++
      (wordsOf (Text.clause "TOP" c.top) ++ (wordsOf c.fields ++
        ((⟨' ', "FROM"⟩ :: wordsOf c.table) ++ (wordsOf c.joins ++
          (wordsOf (Text.clause "WHERE" c.filter) ++
            (wordsOf (Text.clause "GROUP BY" c.groupBy) ++
              (wordsOf (Text.clause "HAVING" c.having) ++
                (wordsOf (Text.clause "ORDER BY" c.orderBy) ++
                  (wordsOf (Text.clause "LIMIT" c.limit) ++ [])))))))))) := by
  have hkept : Kept (Whole []) := kept_whole (List.nil_subset _)
  have hclosed : ∀ {t : Text}, Whole clauseWords t → Whole [] t := Whole.mono (List.nil_subset _)
  have hclause : ∀ {k t : Text}, (Place.start.behind k).isOutside = true → Whole clauseWords t →
      Whole [] (Text.clause k t) := fun hk ht => hkept.clause (whole_nil_iff.2 hk) (hclosed ht)
  have hdistinct : Whole [] (distinctClause c.distinct) := by
    cases c.distinct with
    | false => exact hkept.nil
    | true => exact whole_nil_iff.2 rfl
  have hgroups : ∀ piece ∈ [Text.clause "GROUP BY" c.groupBy, Text.clause "HAVING" c.having],
      Whole [] piece := by
    simp only [List.forall_mem_cons, List.not_mem_nil, false_imp_iff, implies_true, and_true]
    exact ⟨hclause rfl h.groupBy, hclause rfl h.having⟩
  have hpieces : ∀ piece ∈ c.pieces, Whole [] piece := by
    simp only [pieces, List.forall_mem_cons, List.not_mem_nil, false_imp_iff, implies_true,
      and_true]
    exact ⟨whole_nil_iff.2 rfl, hdistinct, hclause rfl (whole_of_solid h.top h.counted),
      hclosed h.fields, whole_nil_iff.2 rfl, hclosed h.table, h.joins, hclause rfl h.filter,
      hkept.spaced hgroups, hclause rfl h.orderBy, hclause rfl h.limit⟩
  have hselect : wordsOf "SELECT" = [⟨' ', "SELECT"⟩] := words_letters (t := "SELECT") (by decide)
  have hfrom : wordsOf "FROM" = [⟨' ', "FROM"⟩] := words_letters (t := "FROM") (by decide)
  have hmem : lit "SELECT" ∈ c.pieces := List.mem_cons_self
  have hwritten : c.write ≠ [] := Text.spaced_ne_nil hmem (by decide)
  rw [← wordsOf_of_ne_nil hwritten, write, wordsOf_spaced hpieces, pieces]
  simp only [List.flatMap_cons, List.flatMap_nil, wordsOf_spaced hgroups, hselect, hfrom,
    List.cons_append, List.append_assoc, List.nil_append]

/-- What was written is read back. -/
theorem Clear.read_write (h : c.Clear) : read c.write = c := by
  have htrailing := cut_trailing h.filter h.groupBy h.having h.orderBy h.limit
  have hjoins := cut_append (Prod.ext h.joins_front rfl) htrailing
  have htable := cut_segment (k := "FROM") (by decide) ' ' h.table.wordsOf
  have hsource := cut_append htable hjoins
  rw [List.singleton_append] at hsource
  have hjoined := cut_words (wordsOf c.joins)
  rw [h.joins_front, List.nil_append] at hjoined
  rw [read_leading h.top h.counted h.fields h.words_write hsource,
    readBehind_trailing h.joins_keyword, hjoined]
  simp only [body_wordsOf, body_following, body_tail_following, ← h.rest]

end Clauses

end Outline

end SqlCompose
