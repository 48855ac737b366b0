import SqlCompose.Proofs.Union.Calm
import SqlCompose.Proofs.Union.Reader

/-!
# Queries of a union and their own clauses

A union writes its queries one behind the other, each with its `ORDER BY` and
its `LIMIT`, and without brackets.  Read as SQL such a clause is an error in
front of a `UNION`, and behind the last query it is about the rows of all.
`UnionQuery.compileKeeping_keepsOwn_iff` says that a union is read as its
queries, with its own order at the end, exactly if there are queries and none
of them is ordered or limited.
-/

namespace SqlCompose

open Token Phrase Value

/-! ## Clauses at the end -/

/-- What orders and limits rows, as it stands behind a query. -/
def endingText (o : Option OrderBy) (l : Option RowLimit) : Text :=
  Text.spaced [OrderBy.clause o, RowLimit.clause l]

/-- Whether rows are neither ordered nor limited. -/
def Unordered (o : Option OrderBy) (l : Option RowLimit) : Prop :=
  OrderBy.clause o = [] ∧ RowLimit.clause l = []

theorem endingText_eq_nil_iff {o : Option OrderBy} {l : Option RowLimit} :
    endingText o l = [] ↔ Unordered o l := by
  constructor
  · intro h
    refine ⟨?_, ?_⟩
    · by_contra horder
      exact Text.spaced_ne_nil (by simp) horder h
    · by_contra hlimit
      exact Text.spaced_ne_nil (by simp) hlimit h
  · rintro ⟨horder, hlimit⟩
    rw [endingText, horder, hlimit]
    rfl

theorem endingText_none (o : Option OrderBy) : endingText o none = OrderBy.clause o := by
  have hnone : RowLimit.clause none = [] := rfl
  rw [endingText, hnone]
  by_cases ho : OrderBy.clause o = []
  · rw [ho]
    rfl
  · rw [Text.spaced_cons ho]
    exact if_pos rfl

theorem Text.clause_eq_of_ne_nil {keyword body : Text} (h : Text.clause keyword body ≠ []) :
    Text.clause keyword body = keyword ++ ' ' :: body := by
  unfold Text.clause at h ⊢
  split at h
  · exact absurd rfl h
  · rename_i hbody
    rw [if_neg hbody]

/-- A calm text behind a word is read with the word in front. -/
theorem Calm.reads_worded {reserved : List Text} {t w : Text} (h : Calm reserved t)
    (hw : IsName w) : ∃ cs, Reads (w ++ ' ' :: t) (.word w :: .other space :: cs) ∧
      ∀ ch ∈ cs, ∀ k ∈ reserved, ch.isWord k = false := by
  obtain ⟨ps, hps⟩ := h
  have hreads : Reads t (chunks ps) := ⟨ps, hps.written, rfl⟩
  exact ⟨chunks ps, hreads.worded hw, hps.quiet⟩

/-- What stands behind a query begins with one of its two words, unless it is empty. -/
theorem reads_endingText {o : Option OrderBy} {l : Option RowLimit}
    (ho : ∀ t ∈ o.toList.flatMap OrderBy.verbatims, Calm setWords t)
    (hl : ∀ t ∈ l.toList.flatMap RowLimit.verbatims, Calm setWords t) (hsome : ¬Unordered o l) :
    ∃ ch cs, Reads (endingText o l) (ch :: cs) ∧ ch.beginsEnding = true ∧
      ∀ c ∈ ch :: cs, c.isWord "UNION" = false := by
  have hkept : Kept (Calm ["UNION"]) := kept_calm (by simp [setWords])
  have hby : Calm ["UNION"] "BY" := .of_letters (by decide) (by decide) (by decide)
  have hword : Calm ["UNION"] "LIMIT" := .of_letters (by decide) (by decide) (by decide)
  have horder : Calm ["UNION"] ((o.map OrderBy.body).getD []) :=
    hkept.optional fun x hx => hkept.orderBody x fun t ht =>
      (forall_of_flatMap ho (Option.mem_toList.2 hx) t ht).mono (by simp [setWords])
  have hlimit : Calm ["UNION"] ((l.map RowLimit.body).getD []) :=
    hkept.optional fun x hx => hkept.limitBody x fun t ht =>
      (forall_of_flatMap hl (Option.mem_toList.2 hx) t ht).mono (by simp [setWords])
  -- One of the two words with calm text behind it.
  have hbegins : ∃ w ∈ [lit "ORDER", lit "LIMIT"], ∃ t, endingText o l = w ++ ' ' :: t ∧
      Calm ["UNION"] t := by
    by_cases hnone : OrderBy.clause o = []
    · have hclause : RowLimit.clause l ≠ [] := fun hempty => hsome ⟨hnone, hempty⟩
      refine ⟨"LIMIT", by simp, _, ?_, hlimit⟩
      rw [endingText, hnone, Text.spaced_nil_cons, Text.spaced_singleton]
      exact Text.clause_eq_of_ne_nil hclause
    · have hby := hkept.worded hby horder
      have horderClause : OrderBy.clause o =
          "ORDER" ++ ' ' :: ("BY" ++ ' ' :: (o.map OrderBy.body).getD []) := by
        have heq := Text.clause_eq_of_ne_nil hnone
        simpa [OrderBy.clause, lit] using heq
      rw [endingText, Text.spaced_cons hnone, Text.spaced_singleton]
      split
      · exact ⟨"ORDER", by simp, _, horderClause, hby⟩
      · have hclause : Calm ["UNION"] (RowLimit.clause l) := hkept.clause hword hlimit
        refine ⟨"ORDER", by simp, _, ?_, hkept.worded hby hclause⟩
        rw [horderClause]
        simp
  obtain ⟨w, hw, t, heq, hcalm⟩ := hbegins
  have hname : ∀ w ∈ [lit "ORDER", lit "LIMIT"], IsName w ∧
      (Chunk.word w).beginsEnding = true ∧ (Chunk.word w).isWord "UNION" = false := by decide
  obtain ⟨hname, hending, hunion⟩ := hname w hw
  obtain ⟨cs, hreads, hquiet⟩ := hcalm.reads_worded hname
  rw [← heq] at hreads
  refine ⟨_, _, hreads, hending, ?_⟩
  simp only [List.forall_mem_cons]
  exact ⟨hunion, rfl, fun ch hch => hquiet ch hch _ (by simp)⟩

/-! ## A query among others -/

namespace SelectQuery

/-- A query without its order and its limit. -/
def bare (q : SelectQuery) : SelectQuery := { q with orderBy := none, limit := none }

/-- The order and the limit stand behind all the rest. -/
theorem compile_bare {q : SelectQuery} {sql : Text} (h : q.compile = .ok sql) :
    ∃ head, q.bare.compile = .ok head ∧
      sql = if endingText q.orderBy q.limit = [] then head
        else head ++ ' ' :: endingText q.orderBy q.limit := by
  rw [compile] at h
  obtain ⟨table, htable, h⟩ := exists_of_bind_eq_ok h
  obtain ⟨joins, hjoins, h⟩ := exists_of_bind_eq_ok h
  obtain rfl := Except.ok.inj h
  have hselect : lit "SELECT" ≠ [] := by decide
  let head := Text.spaced ["SELECT", distinctClause q.distinct, Top.clause q.top,
    Projection.render q.fields, "FROM", table, joins, Condition.whereClause q.filter,
    GroupBy.clauseWithHaving q.groupBy q.having]
  have hhead : head ≠ [] := Text.spaced_ne_nil List.mem_cons_self hselect
  have hwhole : ∀ o l, Text.spaced ["SELECT", distinctClause q.distinct, Top.clause q.top,
      Projection.render q.fields, "FROM", table, joins, Condition.whereClause q.filter,
      GroupBy.clauseWithHaving q.groupBy q.having, OrderBy.clause o, RowLimit.clause l] =
        if endingText o l = [] then head else head ++ ' ' :: endingText o l := fun o l =>
    (Text.spaced_append [_, _, _, _, _, _, _, _, _] _).trans (Text.spaced_cons hhead _)
  refine ⟨head, ?_, hwhole _ _⟩
  rw [compile]
  change (TableRef.renderRequired q.table >>= _) = _
  rw [htable]
  change (Join.renderChain q.table q.joins >>= _) = _
  rw [hjoins]
  exact congrArg Except.ok (hwhole none none)

theorem verbatims_bare (q : SelectQuery) :
    q.verbatims = q.bare.verbatims ++ q.orderBy.toList.flatMap OrderBy.verbatims ++
      q.limit.toList.flatMap RowLimit.verbatims := by
  simp [verbatims, bare]

/-- A query without its order and its limit is read from its first word on. -/
theorem reads_bare {q : SelectQuery} (hcalm : ∀ t ∈ q.bare.verbatims, Calm setWords t)
    {head : Text} (h : q.bare.compile = .ok head) :
    ∃ cs, Reads head cs ∧ IsSelect cs ∧ Quiet cs := by
  have hwords : ∀ w ∈ selectWords, Calm setWords w := by
    have hletters : ∀ w ∈ selectWords,
        w ≠ [] ∧ w.all Char.isAlpha = true ∧ w.upper ∉ setWords := by decide
    exact fun w hw => .of_letters (hletters w hw).1 (hletters w hw).2.1 (hletters w hw).2.2
  obtain ⟨behind, rfl, hbehind⟩ :=
    (kept_calm (List.Subset.refl _)).select hwords hcalm .nil .nil h
  obtain ⟨cs, hreads, hquiet⟩ := hbehind.reads_worded (w := "SELECT") (by decide)
  refine ⟨_, hreads, ⟨⟨_, rfl⟩, ?_⟩, ?_⟩
  · refine List.forall_mem_cons.2 ⟨by decide, List.forall_mem_cons.2 ⟨rfl, fun ch hch => ?_⟩⟩
    exact hquiet ch hch _ (by simp [setWords])
  · refine List.forall_mem_cons.2 ⟨by decide, List.forall_mem_cons.2 ⟨rfl, fun ch hch => ?_⟩⟩
    rw [Chunk.beginsEnding, hquiet ch hch _ (by simp [setWords]),
      hquiet ch hch _ (by simp [setWords])]
    rfl

/-- The chunks of a query show whether it is ordered or limited. -/
theorem reads_compile {q : SelectQuery} (hcalm : ∀ t ∈ q.verbatims, Calm setWords t) {sql : Text}
    (h : q.compile = .ok sql) :
    ∃ cs, Reads sql cs ∧ IsSelect cs ∧ (Quiet cs ↔ Unordered q.orderBy q.limit) := by
  rw [verbatims_bare] at hcalm
  simp only [List.mem_append, or_imp, forall_and] at hcalm
  obtain ⟨⟨hbare, horder⟩, hlimit⟩ := hcalm
  obtain ⟨head, hhead, rfl⟩ := compile_bare h
  obtain ⟨cs, hreads, ⟨⟨first, rfl⟩, hunion⟩, hquiet⟩ := reads_bare hbare hhead
  by_cases hplain : Unordered q.orderBy q.limit
  · rw [if_pos (endingText_eq_nil_iff.2 hplain)]
    exact ⟨_, hreads, ⟨⟨_, rfl⟩, hunion⟩, fun _ => hplain, fun _ => hquiet⟩
  · obtain ⟨ch, ending, hending, hch, hnone⟩ := reads_endingText horder hlimit hplain
    rw [if_neg (fun hempty => hplain (endingText_eq_nil_iff.1 hempty))]
    refine ⟨_, hreads.spaced hending, ⟨⟨_, rfl⟩, ?_⟩, fun hall => ?_, fun h => absurd h hplain⟩
    · exact List.forall_mem_append.2 ⟨hunion, List.forall_mem_cons.2 ⟨rfl, hnone⟩⟩
    · have hno := hall ch (by simp)
      rw [hch] at hno
      exact absurd hno (by simp)

/-- Several queries, one after the other. -/
theorem reads_mapM {queries : List SelectQuery}
    (hcalm : ∀ t ∈ queries.flatMap verbatims, Calm setWords t) {sqls : List Text}
    (h : queries.mapM compile = .ok sqls) :
    ∃ css, List.Forall₂ Reads sqls css ∧ (∀ cs ∈ css, IsSelect cs) ∧
      ((∀ cs ∈ css, Quiet cs) ↔ ∀ q ∈ queries, Unordered q.orderBy q.limit) ∧
      sqls.length = queries.length := by
  induction queries generalizing sqls with
  | nil =>
    obtain rfl := Except.ok.inj h
    exact ⟨[], .nil, by simp, by simp, rfl⟩
  | cons q rest ih =>
    rw [List.mapM_cons] at h
    obtain ⟨sql, hsql, h⟩ := exists_of_bind_eq_ok h
    obtain ⟨later, hlater, h⟩ := exists_of_bind_eq_ok h
    obtain rfl := Except.ok.inj h
    obtain ⟨cs, hreads, hselect, hquiet⟩ := reads_compile (forall_of_flatMap hcalm (by simp)) hsql
    obtain ⟨css, hall, hselects, hquiets, hlength⟩ := ih (fun t ht => hcalm t (by simp [ht])) hlater
    refine ⟨cs :: css, .cons hreads hall, ?_, ?_, ?_⟩
    · exact List.forall_mem_cons.2 ⟨hselect, hselects⟩
    · rw [List.forall_mem_cons, List.forall_mem_cons, hquiet, hquiets]
    · rw [List.length_cons, List.length_cons, hlength]

end SelectQuery

/-! ## Unions -/

namespace UnionQuery

/-- Whether a text, read as SQL, is the queries of a union, each as it is or between brackets,
and all that stands behind them is the order of the union itself. -/
def KeepsOwn (u : UnionQuery) (text : Text) : Prop :=
  ∃ sqls r, u.selects.mapM SelectQuery.compile = .ok sqls ∧ readUnion text = some r ∧
    List.Forall₂ IsQueryText r.queries sqls ∧ r.ending = (OrderBy.clause u.orderBy).trim

/-- The order of a union behind its last query. -/
theorem exists_ending {o : Option OrderBy}
    (ho : ∀ t ∈ o.toList.flatMap OrderBy.verbatims, Calm setWords t) {joined : Text}
    {cs : List Chunk} (hjoined : Reads joined cs) (hne : joined ≠ []) :
    ∃ ending, IsEnding ending ∧ (∀ ch ∈ ending, ch.isWord "UNION" = false) ∧
      chunkText ending = (OrderBy.clause o).trim ∧
      Reads (Text.spaced [joined, OrderBy.clause o]) (cs ++ ending) := by
  by_cases hnone : OrderBy.clause o = []
  · refine ⟨[], .inl rfl, by simp, by rw [hnone]; rfl, ?_⟩
    rw [hnone, Text.spaced_cons hne, if_pos (by rfl), List.append_nil]
    exact hjoined
  · obtain ⟨ch, rest, hreads, hch, hunion⟩ :=
      reads_endingText (l := none) ho (by simp) fun h => hnone h.1
    rw [endingText_none] at hreads
    refine ⟨.other space :: ch :: rest, .inr ⟨ch, rest, rfl, hch⟩,
      List.forall_mem_cons.2 ⟨rfl, hunion⟩, ?_, ?_⟩
    · rw [chunkText_cons_space, chunkText, hreads.spell]
    · rw [Text.spaced_cons hne, Text.spaced_singleton, if_neg hnone]
      exact hjoined.spaced hreads

/-- How the text of a union is read: `sqls` are its queries as they are written, `css` their
chunks, and `ending` is what stands behind the last of them. -/
structure Reading (u : UnionQuery) (text : Text) (sqls : List Text) (css : List (List Chunk))
    (ending : List Chunk) : Prop where
  compiled : u.selects.mapM SelectQuery.compile = .ok sqls
  written : sqls = css.map fun cs => cs.flatMap Chunk.spell
  ne_nil : css ≠ []
  selects : ∀ cs ∈ css, IsSelect cs
  quiet_iff : (∀ cs ∈ css, Quiet cs) ↔ ∀ q ∈ u.selects, Unordered q.orderBy q.limit
  isEnding : IsEnding ending
  ordered : chunkText ending = (OrderBy.clause u.orderBy).trim
  read : readUnion text = readQueries (unionParts ending css)

/-- A union with queries is read as its queries and its order. -/
theorem exists_reading {u : UnionQuery} {duplicates : Bool} {text : Text}
    (hcalm : ∀ t ∈ u.verbatims, Calm setWords t) (hne : u.selects ≠ [])
    (h : u.compileKeeping duplicates = .ok text) :
    ∃ sqls css ending, u.Reading text sqls css ending := by
  simp only [verbatims, List.mem_append, or_imp, forall_and] at hcalm
  obtain ⟨hqueries, horder⟩ := hcalm
  rw [compileKeeping] at h
  obtain ⟨sqls, hsqls, h⟩ := exists_of_bind_eq_ok h
  obtain rfl := Except.ok.inj h
  obtain ⟨css, hreads, hselects, hquiets, hlength⟩ := SelectQuery.reads_mapM hqueries hsqls
  have hsqlsNe : sqls ≠ [] := by
    rw [← List.length_pos_iff, hlength, List.length_pos_iff]
    exact hne
  have hcssNe : css ≠ [] := by
    rw [← List.length_pos_iff, ← hreads.length_eq, List.length_pos_iff]
    exact hsqlsNe
  have hwritten := eq_map_of_reads hreads
  have hsome : ∀ sql ∈ sqls, sql ≠ [] := by
    rw [hwritten]
    intro sql hsql
    obtain ⟨cs, hcs, rfl⟩ := List.mem_map.1 hsql
    exact (hselects cs hcs).spell_ne_nil
  -- No query is left out, so the text is all of them with the word between.
  have hall : Text.nonempty sqls = sqls :=
    List.filter_eq_self.2 fun sql hsql => by simpa using hsome sql hsql
  have hjoined := reads_joinWith duplicates hreads hsqlsNe
  have hjoinedNe : Text.joinWith (unionText duplicates) sqls ≠ [] := by
    obtain ⟨sql, rest, rfl⟩ := List.exists_cons_of_ne_nil hsqlsNe
    have hsql := hsome sql (by simp)
    cases rest <;> simp [hsql]
  obtain ⟨ending, hending, hunion, hordered, hwhole⟩ := exists_ending horder hjoined hjoinedNe
  rw [← hall] at hwhole
  exact ⟨sqls, css, ending, hsqls, hwritten, hcssNe, hselects, hquiets, hending, hordered,
    readUnion_of_reads hselects hunion hcssNe hwhole⟩

/-- The clauses of each query apply to this query alone exactly if no query has any. -/
theorem compileKeeping_keepsOwn_iff {u : UnionQuery} {duplicates : Bool} {text : Text}
    (hcalm : ∀ t ∈ u.verbatims, Calm setWords t) (h : u.compileKeeping duplicates = .ok text) :
    u.KeepsOwn text ↔ u.selects ≠ [] ∧
      ∀ q ∈ u.selects, OrderBy.clause q.orderBy = [] ∧ RowLimit.clause q.limit = [] := by
  constructor
  · rintro ⟨sqls, r, hsqls, hread, hqueries, -⟩
    have hne : u.selects ≠ [] := by
      intro hnil
      rw [hnil] at hsqls
      obtain rfl := Except.ok.inj hsqls
      exact queries_ne_nil hread (List.forall₂_nil_right_iff.1 hqueries)
    obtain ⟨sqls', css, ending, hreading⟩ := exists_reading hcalm hne h
    obtain rfl : sqls = sqls' := Except.ok.inj (hsqls.symm.trans hreading.compiled)
    rw [hreading.read] at hread
    rw [hreading.written] at hqueries
    exact ⟨hne, hreading.quiet_iff.1 (quiet_of_readQueries hread hqueries)⟩
  · rintro ⟨hne, hplain⟩
    obtain ⟨sqls, css, ending, hreading⟩ := exists_reading hcalm hne h
    have hread := readQueries_of_quiet hreading.selects hreading.isEnding hreading.ne_nil
      (hreading.quiet_iff.2 hplain)
    refine ⟨sqls, _, hreading.compiled, hreading.read.trans hread, ?_, hreading.ordered⟩
    rw [hreading.written, List.forall₂_map_left_iff, List.forall₂_map_right_iff]
    exact List.forall₂_same.2 fun cs _ => .inl rfl

/-- A union of some rows of a table and those of a table expression that is limited itself. -/
def withSubquery : UnionQuery :=
  { selects :=
      [{ table := some (.named "t"), filter := some (.fields [("a", .value (.text "UNION"))]) },
        { table := some (.aliased (Text.bracketed "SELECT 1 LIMIT 1") "u") }]
    orderBy := some (.names ["a"]) }

/-- The union above as it is written. -/
def withSubqueryText : Text :=
  lit ("SELECT * FROM t WHERE a = 'UNION' UNION ALL " ++
    "SELECT * FROM (SELECT 1 LIMIT 1) AS u ORDER BY a")

/-- A literal and brackets hide the words that a union is read by. -/
theorem compileKeeping_keepsOwn_iff_subquery :
    withSubquery.compileKeeping true = .ok withSubqueryText ∧
      withSubquery.KeepsOwn withSubqueryText := by
  have hbody : Calm [] "SELECT 1 LIMIT 1" := .of_codes (by decide) (by simp [lit]) (by simp)
  have hcalm : ∀ t ∈ withSubquery.verbatims, Calm setWords t := by
    have hname : ∀ t ∈ [lit "t", "u", "a"], Calm setWords t := by
      have hletters : ∀ t ∈ [lit "t", "u", "a"],
          t ≠ [] ∧ t.all Char.isAlpha = true ∧ t.upper ∉ setWords := by decide
      exact fun t ht => .of_letters (hletters t ht).1 (hletters t ht).2.1 (hletters t ht).2.2
    have hverbatims : withSubquery.verbatims =
        [lit "t", "a", Text.bracketed "SELECT 1 LIMIT 1", "u", "a"] := rfl
    rw [hverbatims]
    simp only [List.forall_mem_cons, List.not_mem_nil, false_imp_iff, implies_true, and_true]
    exact ⟨hname _ (by simp), hname _ (by simp), hbody.bracketed, hname _ (by simp),
      hname _ (by simp)⟩
  have hcompile : withSubquery.compileKeeping true = .ok withSubqueryText := by decide
  exact ⟨hcompile, (compileKeeping_keepsOwn_iff hcalm hcompile).2 ⟨by decide, by decide⟩⟩

/-- A union of two queries of which one is ordered. -/
def withOrdered (first : Bool) : UnionQuery :=
  let ordered : SelectQuery := { table := some (.named "t"), orderBy := some (.verbatim "a") }
  let plain : SelectQuery := { table := some (.named "u") }
  { selects := if first then [ordered, plain] else [plain, ordered] }

/-- The order of the first query makes an error of the union, and the order of the last query
is read as one of all rows.  Between brackets both would stay with their query. -/
theorem compileKeeping_ordered :
    ((withOrdered true).compileKeeping false =
        .ok "SELECT * FROM t ORDER BY a UNION SELECT * FROM u" ∧
      readUnion "SELECT * FROM t ORDER BY a UNION SELECT * FROM u" = none ∧
      ¬(withOrdered true).KeepsOwn "SELECT * FROM t ORDER BY a UNION SELECT * FROM u" ∧
      (withOrdered true).KeepsOwn "(SELECT * FROM t ORDER BY a) UNION SELECT * FROM u") ∧
    ((withOrdered false).compileKeeping false =
        .ok "SELECT * FROM u UNION SELECT * FROM t ORDER BY a" ∧
      readUnion "SELECT * FROM u UNION SELECT * FROM t ORDER BY a" =
        some ⟨["SELECT * FROM u", "SELECT * FROM t"], "ORDER BY a"⟩ ∧
      ¬(withOrdered false).KeepsOwn "SELECT * FROM u UNION SELECT * FROM t ORDER BY a") := by
  have hfirst : readUnion "SELECT * FROM t ORDER BY a UNION SELECT * FROM u" = none := by
    decide +kernel
  have hbracketed : readUnion "(SELECT * FROM t ORDER BY a) UNION SELECT * FROM u" =
      some ⟨["(SELECT * FROM t ORDER BY a)", "SELECT * FROM u"], []⟩ := by decide +kernel
  have hlast : readUnion "SELECT * FROM u UNION SELECT * FROM t ORDER BY a" =
      some ⟨["SELECT * FROM u", "SELECT * FROM t"], "ORDER BY a"⟩ := by decide +kernel
  refine ⟨⟨rfl, hfirst, ?_, ?_⟩, rfl, hlast, ?_⟩
  · rintro ⟨_, r, -, hread, -, -⟩
    rw [hfirst] at hread
    exact absurd hread (by simp)
  · refine ⟨["SELECT * FROM t ORDER BY a", "SELECT * FROM u"], _, rfl, hbracketed, ?_, rfl⟩
    exact .cons (.inr rfl) (.cons (.inl rfl) .nil)
  · rintro ⟨_, r, -, hread, -, hending⟩
    rw [hlast] at hread
    obtain rfl := Option.some.inj hread
    exact absurd hending (by decide)

end UnionQuery

end SqlCompose
