import SqlCompose.Proofs.OperandList
import SqlCompose.Proofs.Outline.Clauses

/-!
# The clauses of a query are read off its text

What `read` finds in the text of a `SELECT` is what the query was written from,
clause by clause, unless verbatim text has quotes or words of its own that a
statement is cut at (`compile_outlined`).  So two such queries with one
text have the same clauses.  Operands may hold anything.

The one clause with such words in its body is the chain of joins, and
`cut_joins` says that it has no others and begins with one.
-/

namespace SqlCompose

namespace Outline

variable {t sql : Text} {q q' : SelectQuery} {c : Clauses}

/-! ## Joins -/

/-- A text that begins with a word of joins. -/
def BeginsJoin (t : Text) : Prop := ∃ k ∈ joinWords, ∃ rest, t = k ++ ' ' :: rest

theorem beginsJoin_render {left : Option TableRef} {j : Join} (h : j.render left = .ok t) :
    t = [] ∨ BeginsJoin t := by
  have hkind : ∀ kind : JoinKind, kind.render ∈ joinWords := by
    intro kind
    cases kind <;> decide
  unfold Join.render at h
  split at h
  · split at h
    · exact .inl (Except.ok.inj h).symm
    · obtain ⟨table, -, h⟩ := exists_of_bind_eq_ok h
      obtain rfl := Except.ok.inj h
      exact .inr ⟨_, hkind _, _, by simp only [List.append_assoc]; rfl⟩
  · exact .inl (Except.ok.inj h).symm

theorem beginsJoin_renderEach {left : Option TableRef} {joins : List Join} {each : List Text}
    (h : Join.renderEach left joins = .ok each) : ∀ t ∈ each, t = [] ∨ BeginsJoin t := by
  induction joins generalizing left each with
  | nil =>
    obtain rfl := Except.ok.inj h
    simp
  | cons j rest ih =>
    rw [Join.renderEach] at h
    obtain ⟨sql, hsql, h⟩ := exists_of_bind_eq_ok h
    obtain ⟨later, hlater, h⟩ := exists_of_bind_eq_ok h
    obtain rfl := Except.ok.inj h
    rw [List.forall_mem_cons]
    exact ⟨beginsJoin_render hsql, ih hlater⟩

theorem beginsJoin_spaced {pieces : List Text} (h : ∀ t ∈ pieces, t = [] ∨ BeginsJoin t) :
    Text.spaced pieces = [] ∨ BeginsJoin (Text.spaced pieces) := by
  induction pieces with
  | nil => exact .inl rfl
  | cons piece rest ih =>
    obtain ⟨hpiece, hrest⟩ := List.forall_mem_cons.1 h
    rcases hpiece with rfl | ⟨k, hk, behind, rfl⟩
    · exact ih hrest
    · refine .inr ?_
      rw [Text.spaced_cons (by simp)]
      split
      · exact ⟨k, hk, behind, rfl⟩
      · exact ⟨k, hk, behind ++ ' ' :: Text.spaced rest, by simp⟩

/-- The words that are cut at, apart from those of joins. -/
def outerWords : List Text :=
  ["DISTINCT", "TOP", "FROM", "WHERE", "GROUP", "HAVING", "ORDER", "LIMIT"]

/-- The joins of a query are segments of their own, and their literals are complete. -/
theorem cut_joins (hq : ∀ t ∈ q.verbatims, Unmistakable t)
    (hchain : Join.renderChain q.table q.joins = .ok t) :
    Whole [] t ∧ (cut (wordsOf t)).1 = [] ∧
      ∀ s ∈ (cut (wordsOf t)).2, s.keyword ∈ joinWords := by
  have houter : outerWords ⊆ clauseWords := by decide
  have hsplit : ∀ k ∈ clauseWords, k ∈ joinWords ∨ k ∈ outerWords := by decide
  have hletters : ∀ w ∈ joinWords, w ∉ outerWords ∧ w.all Char.isAlpha = true := by decide
  have hsolid : ∀ w ∈ joinWords, ∀ c ∈ w, c ≠ '\'' ∧ isBlank c = false := fun w hw =>
    solid_of_letters (hletters w hw).2
  have hwhole : Whole outerWords t :=
    (kept_whole houter).joinChain (fun w hw => whole_of_solid (hsolid w hw) (hletters w hw).1)
      (fun t ht => (hq t ht).whole houter) hchain
  refine ⟨hwhole.mono (List.nil_subset _), ?_, ?_⟩
  · rw [Join.renderChain] at hchain
    obtain ⟨each, heach, hchain⟩ := exists_of_bind_eq_ok hchain
    obtain rfl := Except.ok.inj hchain
    rcases beginsJoin_spaced (beginsJoin_renderEach heach) with hnil | ⟨k, hk, rest, htext⟩
    · rw [hnil]
      rfl
    · have hjoin : joinWords ⊆ clauseWords := by decide
      have hcomplete := (wordsFrom_solid (p := .start) rfl (hsolid k hk)).2
      rw [htext, wordsOf_of_ne_nil (by simp), words_blank ' ' hcomplete rfl,
        words_solid (hsolid k hk), List.singleton_append, cut_keyword (hjoin hk)]
  · intro s hs
    obtain ⟨hclause, w, hw, htext⟩ := keyword_mem_of_mem_cut hs
    refine (hsplit _ hclause).resolve_right fun houter => ?_
    exact hwhole.wordsOf w hw (htext ▸ houter)

/-! ## Clauses of queries -/

/-- The count of `TOP` is one word. -/
theorem top_clause (top : Option Top) :
    ∃ count : Text, Text.clause "TOP" count = Top.clause top ∧
      (∀ c ∈ count, c ≠ '\'' ∧ isBlank c = false) ∧ count ∉ clauseWords := by
  have hnone : [] ∉ clauseWords := nil_not_mem (List.Subset.refl _)
  unfold Top.clause
  split
  · rename_i n _
    split
    · have hwhole : Whole clauseWords (countText n) := (kept_whole (List.Subset.refl _)).countText n
      obtain ⟨digits, heq, hdigits⟩ := Text.ofInt_eq n.toInt
      have hsolid : ∀ c ∈ countText n, c ≠ '\'' ∧ isBlank c = false := by
        intro c hc
        rw [countText, heq] at hc
        exact (solid_numeral hdigits c hc).1
      have hne : countText n ≠ [] := Value.ofInt_ne_nil n.toInt
      refine ⟨countText n, if_neg (by simpa using hne), hsolid, ?_⟩
      have hfirst := hwhole.first
      rwa [(wordsFrom_solid rfl hsolid).1] at hfirst
    · exact ⟨[], rfl, by simp, hnone⟩
  · exact ⟨[], rfl, by simp, hnone⟩

/-- Every clause of a query is what its compiler writes. -/
structure Outlined (q : SelectQuery) (c : Clauses) : Prop where
  distinct : c.distinct = q.distinct
  top : Text.clause "TOP" c.top = Top.clause q.top
  fields : c.fields = Projection.render q.fields
  table : TableRef.renderRequired q.table = .ok c.table
  joins : Join.renderChain q.table q.joins = .ok c.joins
  filter : Text.clause "WHERE" c.filter = Condition.whereClause q.filter
  groupBy : Text.clause "GROUP BY" c.groupBy = GroupBy.clause q.groupBy
  having : Text.clause "HAVING" c.having = GroupBy.havingClause q.groupBy q.having
  no_having : c.groupBy = [] → c.having = []
  orderBy : Text.clause "ORDER BY" c.orderBy = OrderBy.clause q.orderBy
  limit : Text.clause "LIMIT" c.limit = RowLimit.clause q.limit
  rest : c.rest = []

/-- Two queries whose clauses are written alike. -/
structure SameClauses (q q' : SelectQuery) : Prop where
  distinct : q.distinct = q'.distinct
  top : Top.clause q.top = Top.clause q'.top
  fields : Projection.render q.fields = Projection.render q'.fields
  table : TableRef.renderRequired q.table = TableRef.renderRequired q'.table
  joins : Join.renderChain q.table q.joins = Join.renderChain q'.table q'.joins
  filter : Condition.whereClause q.filter = Condition.whereClause q'.filter
  groupBy : GroupBy.clause q.groupBy = GroupBy.clause q'.groupBy
  having : GroupBy.havingClause q.groupBy q.having = GroupBy.havingClause q'.groupBy q'.having
  orderBy : OrderBy.clause q.orderBy = OrderBy.clause q'.orderBy
  limit : RowLimit.clause q.limit = RowLimit.clause q'.limit

theorem Outlined.sameClauses (h : Outlined q c) (h' : Outlined q' c) : SameClauses q q' where
  distinct := h.distinct.symm.trans h'.distinct
  top := h.top.symm.trans h'.top
  fields := h.fields.symm.trans h'.fields
  table := h.table.trans h'.table.symm
  joins := h.joins.trans h'.joins.symm
  filter := h.filter.symm.trans h'.filter
  groupBy := h.groupBy.symm.trans h'.groupBy
  having := h.having.symm.trans h'.having
  orderBy := h.orderBy.symm.trans h'.orderBy
  limit := h.limit.symm.trans h'.limit

/-- A query is written from its clauses. -/
theorem exists_clear (hq : ∀ t ∈ q.verbatims, Unmistakable t) (hsql : q.compile = .ok sql) :
    ∃ c : Clauses, c.Clear ∧ Outlined q c ∧ sql = c.write := by
  rw [SelectQuery.compile] at hsql
  obtain ⟨table, htable, hsql⟩ := exists_of_bind_eq_ok hsql
  obtain ⟨chain, hchain, hsql⟩ := exists_of_bind_eq_ok hsql
  obtain rfl := Except.ok.inj hsql
  have hkept : Kept (Whole clauseWords) := kept_whole (List.Subset.refl _)
  have hbodies := hkept.bodies fun t ht => (hq t ht).whole (List.Subset.refl _)
  obtain ⟨count, htop, hcount, hfree⟩ := top_clause q.top
  obtain ⟨hjoins, hfront, hjoined⟩ := cut_joins hq hchain
  -- Without groups, the condition on them is not written.
  have hhaving : ∃ body : Text,
      Text.clause "HAVING" body = GroupBy.havingClause q.groupBy q.having ∧
        Whole clauseWords body ∧ ((q.groupBy.map GroupBy.body).getD [] = [] → body = []) := by
    unfold GroupBy.havingClause
    split
    · exact ⟨[], rfl, hkept.nil, fun _ => rfl⟩
    · rename_i hgroups
      refine ⟨_, rfl, hbodies.having, fun hnil => ?_⟩
      rw [GroupBy.clause, hnil] at hgroups
      exact absurd rfl hgroups
  obtain ⟨having, hwritten, hwhole, hdropped⟩ := hhaving
  refine ⟨{
    distinct := q.distinct
    top := count
    fields := Projection.render q.fields
    table := table
    joins := chain
    filter := (q.filter.map Condition.render).getD []
    groupBy := (q.groupBy.map GroupBy.body).getD []
    having := having
    orderBy := (q.orderBy.map OrderBy.body).getD []
    limit := (q.limit.map RowLimit.body).getD [] }, ?clear, ?outlined, ?written⟩
  case clear =>
    exact ⟨hcount, hfree, hbodies.fields, hbodies.table htable, hjoins, hfront, hjoined,
      hbodies.filter, hbodies.groupBy, hwhole, hbodies.orderBy, hbodies.limit, rfl⟩
  case outlined =>
    exact ⟨rfl, htop, rfl, htable, hchain, rfl, rfl, hwritten, hdropped, rfl, rfl, rfl⟩
  case written =>
    rw [Clauses.write, Clauses.pieces, htop, hwritten]
    rfl

theorem outlined_read (hq : ∀ t ∈ q.verbatims, Unmistakable t) (hsql : q.compile = .ok sql) :
    Outlined q (read sql) := by
  obtain ⟨c, hclear, houtlined, rfl⟩ := exists_clear hq hsql
  rwa [hclear.read_write]

/-- The clauses of a query are those that are read from its text, so another query with this
text has the same clauses. -/
theorem compile_outlined (hq : ∀ t ∈ q.verbatims, Unmistakable t) (hsql : q.compile = .ok sql) :
    Outlined q (read sql) ∧
      ∀ q' : SelectQuery, (∀ t ∈ q'.verbatims, Unmistakable t) → q'.compile = .ok sql →
        SameClauses q q' := by
  have houtlined := outlined_read hq hsql
  exact ⟨houtlined, fun q' hq' hsql' => houtlined.sameClauses (outlined_read hq' hsql')⟩

/-- A query with every clause but `ORDER BY`, whose operand looks like the end of one statement
and most of another.  Its columns may be given one by one or as one text. -/
def withOperand (fields : Projection) : SelectQuery where
  table := some (.aliased "users" "u")
  joins := [{ kind := "left", table := some (.aliased "roles" "r"), on := some ("role", "id") }]
  distinct := true
  top := some (.count 3)
  fields := some fields
  filter := some (.fields [("note", .value (.text "\\' GROUP BY x HAVING 1 ORDER BY y LIMIT 1"))])
  groupBy := some (.names ["u.name"])
  having := some (.sql "count(*) > 1")
  limit := some (.paged 5 10)

def withOperandText : Text :=
  lit "SELECT DISTINCT TOP 3 u.name, count(*) FROM users AS u " ++
    lit "LEFT JOIN roles AS r ON u.role = r.id " ++
    lit "WHERE note = E'\\\\'' GROUP BY x HAVING 1 ORDER BY y LIMIT 1' " ++
    lit "GROUP BY u.name HAVING count(*) > 1 LIMIT 5 OFFSET 10"

theorem compile_outlined_operand :
    (withOperand (.list [.verbatim "u.name", .verbatim "count(*)"])).compile = .ok withOperandText ∧
      Outlined (withOperand (.list [.verbatim "u.name", .verbatim "count(*)"]))
        (read withOperandText) ∧
      SameClauses (withOperand (.list [.verbatim "u.name", .verbatim "count(*)"]))
        (withOperand (.verbatim "u.name, count(*)")) := by
  have hlisted : ∀ t ∈ (withOperand (.list [.verbatim "u.name", .verbatim "count(*)"])).verbatims,
      Unmistakable t := by decide +kernel
  have hwhole : ∀ t ∈ (withOperand (.verbatim "u.name, count(*)")).verbatims, Unmistakable t := by
    decide +kernel
  have hcompile : (withOperand (.list [.verbatim "u.name", .verbatim "count(*)"])).compile =
      .ok withOperandText := by decide +kernel
  obtain ⟨houtlined, hsame⟩ := compile_outlined hlisted hcompile
  exact ⟨hcompile, houtlined, hsame _ hwhole (by decide +kernel)⟩

end Outline

end SqlCompose
