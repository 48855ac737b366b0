import SqlCompose.Proofs.Injection.Clauses

/-!
# Text operands stay inside of literals

What a text operand holds does not change what a statement is.  A statement
whose unquoted parts are inert compiles to the tokens of its redaction, with
the literals filled in (`agree_compile`).  Two statements that differ in text
operands only have one redaction, so they fail alike or are written with the
same code and with literals at the same places
(`literals_stay_literals`).
-/

namespace SqlCompose

open Token

theorem exists_of_bind_eq_ok {α β : Type} {result : Except TableError α}
    {next : α → Except TableError β} {b : β} (h : (result >>= next) = .ok b) :
    ∃ a, result = .ok a ∧ next a = .ok b := by
  cases result with
  | error e => exact absurd h (by simp [bind, Except.bind])
  | ok a => exact ⟨a, rfl, h⟩

/-! ## Tables and joins -/

namespace TableRef

theorem agree_displayName {table : TableRef} (h : ∀ t ∈ table.verbatims, Inert t) :
    Agree table.displayName table.displayName [] := by
  cases table with
  | named name => exact (Agree.verbatim (h name (by simp [verbatims]))).trim
  | aliased name shortName => exact (Agree.verbatim (h shortName (by simp [verbatims]))).trim

theorem agree_of_render {table : TableRef} (h : ∀ t ∈ table.verbatims, Inert t) {sql : Text}
    (hsql : table.render = .ok sql) : Agree sql sql [] := by
  cases table with
  | named name =>
    have hname := (Agree.verbatim (h name (by simp [verbatims]))).trim
    rw [render] at hsql
    split_ifs at hsql
    obtain rfl := Except.ok.inj hsql
    exact hname
  | aliased name shortName =>
    have hname := (Agree.verbatim (h name (by simp [verbatims]))).trim
    have hshort := (Agree.verbatim (h shortName (by simp [verbatims]))).trim
    have has : Glues " AS " := glues_word "AS" rfl rfl (by decide)
    rw [render] at hsql
    split_ifs at hsql
    obtain rfl := Except.ok.inj hsql
    exact has hname hshort

theorem agree_of_renderRequired {table : Option TableRef}
    (h : ∀ t ∈ table.toList.flatMap verbatims, Inert t) {sql : Text}
    (hsql : renderRequired table = .ok sql) : Agree sql sql [] := by
  cases table with
  | none => simp [renderRequired] at hsql
  | some table => exact agree_of_render (forall_of_flatMap h (by simp)) hsql

end TableRef

namespace Join

theorem agree_of_render {left : Option TableRef} {j : Join}
    (hleft : ∀ t ∈ left.toList.flatMap TableRef.verbatims, Inert t)
    (hj : ∀ t ∈ j.verbatims, Inert t) {sql : Text} (hsql : j.render left = .ok sql) :
    Agree sql sql [] := by
  unfold render at hsql
  split at hsql
  · rename_i left right leftField rightField htarget hon
    have hright : ∀ t ∈ right.verbatims, Inert t := by
      obtain ⟨htable, -⟩ := Option.filter_eq_some_iff.1 htarget
      exact fun t ht => hj t (by simp [verbatims, htable, ht])
    have hleftField : Inert leftField := hj _ (by simp [verbatims, hon])
    have hrightField : Inert rightField := hj _ (by simp [verbatims, hon])
    have hleft : ∀ t ∈ left.verbatims, Inert t := fun t ht => hleft t (by simpa using ht)
    split at hsql
    · obtain rfl := Except.ok.inj hsql
      exact .nil
    · obtain ⟨table, htable, hsql⟩ := exists_of_bind_eq_ok hsql
      obtain rfl := Except.ok.inj hsql
      have hkind : Inert (JoinKind.ofText j.kind).render := by
        cases JoinKind.ofText j.kind <;> decide
      have hjoin : Glues " JOIN " := glues_word "JOIN" rfl rfl (by decide)
      have hword : Glues " ON " := glues_word "ON" rfl rfl (by decide)
      have hequal : Glues " = " := glues_word "=" rfl rfl (by decide)
      have hfrom := Agree.separated (c := '.') rfl (TableRef.agree_displayName hleft)
        (.verbatim hleftField)
      have hto := Agree.separated (c := '.') rfl (TableRef.agree_displayName hright)
        (.verbatim hrightField)
      have hbrought := hjoin (.verbatim hkind) (TableRef.agree_of_render hright htable)
      simpa using hword hbrought (hequal hfrom hto)
  · obtain rfl := Except.ok.inj hsql
    exact .nil

/-- Each join of a chain is made of inert text, whatever table it is joined to. -/
theorem agree_of_renderEach {left : Option TableRef} {joins : List Join}
    (hleft : ∀ t ∈ left.toList.flatMap TableRef.verbatims, Inert t)
    (hjoins : ∀ t ∈ joins.flatMap verbatims, Inert t) {each : List Text}
    (heach : renderEach left joins = .ok each) : AgreeAll each each [] := by
  induction joins generalizing left each with
  | nil =>
    obtain rfl := Except.ok.inj heach
    exact .nil
  | cons j rest ih =>
    have hj : ∀ t ∈ j.verbatims, Inert t := forall_of_flatMap hjoins (by simp)
    have hrest : ∀ t ∈ rest.flatMap verbatims, Inert t := fun t ht => hjoins t (by simp [ht])
    have hnext : ∀ t ∈ (j.target.or left).toList.flatMap TableRef.verbatims, Inert t := by
      cases htarget : j.target with
      | none => simpa [htarget] using hleft
      | some table =>
        obtain ⟨htable, -⟩ := Option.filter_eq_some_iff.1 htarget
        intro t ht
        exact hj t (by simpa [verbatims, htable] using .inl (by simpa using ht))
    rw [renderEach] at heach
    obtain ⟨sql, hsql, heach⟩ := exists_of_bind_eq_ok heach
    obtain ⟨later, hlater, heach⟩ := exists_of_bind_eq_ok heach
    obtain rfl := Except.ok.inj heach
    exact .cons (agree_of_render hleft hj hsql) (ih hnext hrest hlater)

theorem agree_of_renderChain {base : Option TableRef} {joins : List Join}
    (hbase : ∀ t ∈ base.toList.flatMap TableRef.verbatims, Inert t)
    (hjoins : ∀ t ∈ joins.flatMap verbatims, Inert t) {sql : Text}
    (hsql : renderChain base joins = .ok sql) : Agree sql sql [] := by
  rw [renderChain] at hsql
  obtain ⟨each, heach, hsql⟩ := exists_of_bind_eq_ok hsql
  obtain rfl := Except.ok.inj hsql
  exact (agree_of_renderEach hbase hjoins heach).spaced

end Join

/-! ## Statements -/

/-- Compiled statements that agree, or the same error. -/
inductive AgreeResult :
    Except TableError Text → Except TableError Text → List Text → Prop
  | error (e : TableError) (x : List Text) : AgreeResult (.error e) (.error e) x
  | ok {a b : Text} {x : List Text} (h : Agree a b x) : AgreeResult (.ok a) (.ok b) x

theorem Condition.agree_clause {keyword : Text} (hword : Inert keyword) {c : Option Condition}
    (h : ∀ t ∈ c.toList.flatMap verbatims, Inert t) :
    Agree (clause keyword c) (clause keyword (c.map redact)) (c.toList.flatMap contents) := by
  rw [clause, clause, Option.map_map]
  exact Agree.clause hword (Agree.optional fun c hc =>
    c.agree_render (forall_of_flatMap h (Option.mem_toList.2 hc)))

theorem Condition.agree_whereClause {c : Option Condition}
    (h : ∀ t ∈ c.toList.flatMap verbatims, Inert t) :
    Agree (whereClause c) (whereClause (c.map redact)) (c.toList.flatMap contents) :=
  agree_clause (by decide) h

theorem GroupBy.agree_clauseWithHaving {g : Option GroupBy} {having : Option Condition}
    (hgroup : ∀ t ∈ g.toList.flatMap verbatims, Inert t)
    (hhaving : ∀ t ∈ having.toList.flatMap Condition.verbatims, Inert t) :
    Agree (clauseWithHaving g having) (clauseWithHaving g (having.map Condition.redact))
      (if (clause g).isEmpty then [] else having.toList.flatMap Condition.contents) := by
  have hfirst := agree_clause hgroup
  have hsecond : Agree (havingClause g having) (havingClause g (having.map Condition.redact))
      (if (clause g).isEmpty then [] else having.toList.flatMap Condition.contents) := by
    unfold havingClause
    split
    · exact .nil
    · exact Condition.agree_clause (by decide) hhaving
  exact (AgreeAll.cons hfirst (.singleton hsecond)).spaced

/-- A word of SQL among the parts of a statement. -/
theorem AgreeAll.word {as bs x : List Text} (h : AgreeAll as bs x) (word : Text)
    (hword : Inert word) : AgreeAll (word :: as) (word :: bs) x :=
  .cons (.verbatim hword) h

theorem SelectQuery.agree_compile {q : SelectQuery} (h : ∀ t ∈ q.verbatims, Inert t) :
    AgreeResult q.compile q.redact.compile q.contents := by
  simp only [verbatims, List.mem_append, or_imp, forall_and] at h
  obtain ⟨⟨⟨⟨⟨⟨⟨htable, hjoins⟩, hfields⟩, hfilter⟩, hgroup⟩, hhaving⟩, horder⟩, hlimit⟩ := h
  have hcompile : ∀ p : SelectQuery, p.table = q.table → p.joins = q.joins →
      p.compile = (TableRef.renderRequired q.table).bind fun table =>
        (Join.renderChain q.table q.joins).bind fun joins =>
          .ok (Text.spaced ["SELECT", distinctClause p.distinct, Top.clause p.top,
            Projection.render p.fields, "FROM", table, joins, Condition.whereClause p.filter,
            GroupBy.clauseWithHaving p.groupBy p.having, OrderBy.clause p.orderBy,
            RowLimit.clause p.limit]) := by
    rintro p htable hjoins
    rw [← htable, ← hjoins]
    rfl
  rw [hcompile q rfl rfl, hcompile q.redact rfl rfl]
  cases hsql : TableRef.renderRequired q.table with
  | error e => exact .error e _
  | ok table =>
    cases hchain : Join.renderChain q.table q.joins with
    | error e => exact .error e _
    | ok joins =>
      refine .ok ?_
      have htail := AgreeAll.cons (OrderBy.agree_clause horder)
        (.singleton (RowLimit.agree_clause hlimit))
      have hconditions := AgreeAll.cons (Condition.agree_whereClause hfilter)
        (.cons (GroupBy.agree_clauseWithHaving hgroup hhaving) htail)
      have hfrom := AgreeAll.cons (TableRef.agree_of_renderRequired htable hsql)
        (.cons (Join.agree_of_renderChain htable hjoins hchain) hconditions)
      have hfields :=
        AgreeAll.cons (Projection.agree_render hfields) (hfrom.word "FROM" (by decide))
      have hall := AgreeAll.cons (agree_distinctClause q.distinct)
        (.cons (Top.agree_clause q.top) hfields)
      simpa [contents, redact] using (hall.word "SELECT" (by decide)).spaced

/-- Queries one after the other, each with its redaction. -/
theorem agree_mapM_compile {queries : List SelectQuery}
    (h : ∀ t ∈ queries.flatMap SelectQuery.verbatims, Inert t) :
    (∃ e, queries.mapM SelectQuery.compile = .error e ∧
        (queries.map SelectQuery.redact).mapM SelectQuery.compile = .error e) ∨
      ∃ as bs, queries.mapM SelectQuery.compile = .ok as ∧
        (queries.map SelectQuery.redact).mapM SelectQuery.compile = .ok bs ∧
        AgreeAll as bs (queries.flatMap SelectQuery.contents) := by
  induction queries with
  | nil => exact .inr ⟨[], [], rfl, rfl, .nil⟩
  | cons q rest ih =>
    have hfirst := SelectQuery.agree_compile (forall_of_flatMap h (x := q) (by simp))
    rw [List.map_cons, List.mapM_cons, List.mapM_cons, List.flatMap_cons]
    generalize hq : q.compile = result, hq' : q.redact.compile = result' at hfirst
    cases hfirst with
    | error e => exact .inl ⟨e, rfl, rfl⟩
    | ok hagree =>
      rcases ih fun t ht => h t (by simp [ht]) with
        ⟨e, hrest, hrest'⟩ | ⟨as, bs, hrest, hrest', hall⟩
      · rw [hrest, hrest']
        exact .inl ⟨e, rfl, rfl⟩
      · rw [hrest, hrest']
        exact .inr ⟨_, _, rfl, rfl, .cons hagree hall⟩

theorem UnionQuery.agree_compile {u : UnionQuery} (h : ∀ t ∈ u.verbatims, Inert t) :
    AgreeResult u.compile u.redact.compile u.contents := by
  simp only [verbatims, List.mem_append, or_imp, forall_and] at h
  obtain ⟨hselects, horder⟩ := h
  rw [compile, compile, compileKeeping, compileKeeping]
  change AgreeResult _ ((u.selects.map SelectQuery.redact).mapM SelectQuery.compile >>= _) _
  rcases agree_mapM_compile hselects with ⟨e, hrest, hrest'⟩ | ⟨as, bs, hrest, hrest', hall⟩
  · rw [hrest, hrest']
    exact .error e _
  · rw [hrest, hrest']
    refine .ok ?_
    have hword : Glues (if u.keepsDuplicates then " UNION ALL " else " UNION ") := by
      split
      · exact glues_word "UNION ALL" rfl rfl (by decide)
      · exact glues_word "UNION" rfl rfl (by decide)
    have hjoined := (AgreeAll.cons (hall.joinNonempty hword)
      (.singleton (OrderBy.agree_clause horder))).spaced
    rw [List.append_nil] at hjoined
    exact hjoined

theorem InsertCommand.agree_verbatimList {list : Option Text} (h : ∀ t ∈ list, Inert t) :
    Agree (verbatimList list) (verbatimList list) [] := by
  have hbody : Agree ((list.map Text.trim).getD []) ((list.map Text.trim).getD []) [] :=
    Agree.optional_same fun t ht => (Agree.verbatim (h t ht)).trim
  unfold verbatimList
  dsimp only
  split
  · exact .nil
  · exact hbody.bracketed

theorem InsertCommand.agree_compile {c : InsertCommand} (h : ∀ t ∈ c.verbatims, Inert t) :
    AgreeResult c.compile c.redact.compile c.contents := by
  simp only [verbatims, List.mem_append, or_imp, forall_and] at h
  obtain ⟨⟨⟨htable, hpayload⟩, hfields⟩, hvalues⟩ := h
  have hparts : Agree c.parts.fields c.redact.parts.fields [] ∧
      Agree c.parts.values c.redact.parts.values c.contents := by
    obtain ⟨table, payload, fields, values⟩ := c
    cases payload with
    | none =>
      exact ⟨agree_verbatimList (by simpa using hfields),
        agree_verbatimList (by simpa using hvalues)⟩
    | some payload =>
      have hagree := InsertPayload.agree_parts (forall_of_flatMap hpayload (x := payload) (by simp))
      simpa [parts, redact, contents] using hagree
  rw [compile, compile]
  change AgreeResult _ (TableRef.renderRequired c.table >>= _) _
  cases hsql : TableRef.renderRequired c.table with
  | error e => exact .error e _
  | ok table =>
    have htable := TableRef.agree_of_renderRequired htable hsql
    change AgreeResult (if c.parts.values.isEmpty then _ else _)
      (if c.redact.parts.values.isEmpty then _ else _) _
    rw [← hparts.2.isEmpty_eq]
    split
    · rename_i hempty
      have hvalues := hparts.2
      rw [List.isEmpty_iff.1 hempty] at hvalues
      rw [hvalues.contents_eq_nil]
      have hdefaults := AgreeAll.singleton (Agree.verbatim (t := "DEFAULT VALUES") (by decide))
      exact .ok ((AgreeAll.cons htable hdefaults).word "INSERT INTO" (by decide)).spaced
    · have hrows := AgreeAll.cons hparts.1 ((AgreeAll.singleton hparts.2).word "VALUES" (by decide))
      exact .ok ((AgreeAll.cons htable hrows).word "INSERT INTO" (by decide)).spaced

theorem UpdateCommand.agree_compile {c : UpdateCommand} (h : ∀ t ∈ c.verbatims, Inert t) :
    AgreeResult c.compile c.redact.compile c.contents := by
  simp only [verbatims, List.mem_append, or_imp, forall_and] at h
  obtain ⟨⟨⟨⟨htable, hassignments⟩, hfilter⟩, horder⟩, hlimit⟩ := h
  rw [compile, compile]
  change AgreeResult _ (TableRef.renderRequired c.table >>= _) _
  cases hsql : TableRef.renderRequired c.table with
  | error e => exact .error e _
  | ok table =>
    refine .ok ?_
    have hset : Agree ((c.assignments.map Assignments.render).getD [])
        ((c.redact.assignments.map Assignments.render).getD [])
        (c.assignments.toList.flatMap Assignments.contents) := by
      rw [redact, Option.map_map]
      exact Agree.optional fun a ha =>
        Assignments.agree_render (forall_of_flatMap hassignments (Option.mem_toList.2 ha))
    have htail := AgreeAll.cons (OrderBy.agree_clause horder)
      (.singleton (RowLimit.agree_clause hlimit))
    have hbody := AgreeAll.cons hset (.cons (Condition.agree_whereClause hfilter) htail)
    have hall := AgreeAll.cons (TableRef.agree_of_renderRequired htable hsql)
      (hbody.word "SET" (by decide))
    simpa [contents, redact] using (hall.word "UPDATE" (by decide)).spaced

theorem DeleteCommand.agree_compile {c : DeleteCommand} (h : ∀ t ∈ c.verbatims, Inert t) :
    AgreeResult c.compile c.redact.compile c.contents := by
  simp only [verbatims, List.mem_append, or_imp, forall_and] at h
  obtain ⟨⟨⟨htable, hfilter⟩, horder⟩, hlimit⟩ := h
  rw [compile, compile]
  change AgreeResult _ (TableRef.renderRequired c.table >>= _) _
  cases hsql : TableRef.renderRequired c.table with
  | error e => exact .error e _
  | ok table =>
    refine .ok ?_
    have htail := AgreeAll.cons (OrderBy.agree_clause horder)
      (.singleton (RowLimit.agree_clause hlimit))
    have hall := AgreeAll.cons (TableRef.agree_of_renderRequired htable hsql)
      (.cons (Condition.agree_whereClause hfilter) htail)
    simpa [contents, redact] using (hall.word "DELETE FROM" (by decide)).spaced

namespace Statement

/-- A statement agrees with its redaction. -/
theorem agree_compile {s : Statement} (h : ∀ t ∈ s.verbatims, Inert t) :
    AgreeResult s.compile s.redact.compile s.contents := by
  cases s with
  | select q => exact SelectQuery.agree_compile h
  | union u => exact UnionQuery.agree_compile h
  | insert c => exact InsertCommand.agree_compile h
  | update c => exact UpdateCommand.agree_compile h
  | delete c => exact DeleteCommand.agree_compile h

/-! ## Two statements with one redaction -/

/-- Two statements that differ in the contents of text operands only fail alike, or they are
written with the same code, with literals at the same places, and each literal means its
own operand. -/
theorem literals_stay_literals {s s' : Statement} (hinert : ∀ t ∈ s.verbatims, Inert t)
    (hsame : s'.redact = s.redact) :
    (∃ e, s.compile = .error e ∧ s'.compile = .error e) ∨
      ∃ sql sql' ts ts', s.compile = .ok sql ∧ s'.compile = .ok sql' ∧
        scan sql = some ts ∧ scan sql' = some ts' ∧ Clear ts ∧ Clear ts' ∧
        outline ts = outline ts' ∧
        literals ts = s.contents.map some ∧ literals ts' = s'.contents.map some := by
  have hinert' : ∀ t ∈ s'.verbatims, Inert t := by
    rw [← s'.verbatims_redact, hsame, s.verbatims_redact]
    exact hinert
  have hfirst := agree_compile hinert
  have hsecond := agree_compile hinert'
  rw [hsame] at hsecond
  generalize s.compile = result, s'.compile = result', s.redact.compile = template
    at hfirst hsecond
  cases hfirst with
  | error e =>
    cases hsecond with
    | error e => exact .inl ⟨e, rfl, rfl⟩
  | ok hagree =>
    cases hsecond with
    | ok hagree' =>
      obtain ⟨ts, us, rfl, rfl, hts, hus, houtline, hliterals⟩ := hagree
      obtain ⟨ts', us', rfl, hspell, hts', hus', houtline', hliterals'⟩ := hagree'
      obtain rfl := hus'.unique hus hspell
      exact .inr ⟨_, _, ts, ts', rfl, rfl, scan_eq_some_iff.2 ⟨rfl, hts.fits⟩,
        scan_eq_some_iff.2 ⟨rfl, hts'.fits⟩, hts, hts', houtline.trans houtline'.symm, hliterals,
        hliterals'⟩

/-- The users that have one of two names, for the example below. -/
def usersNamed (name other : Text) : Statement :=
  .select { table := some (.named "users"),
            filter := some (.any [.fields [("name", .value (.text name))],
              .fields [("name", .criterion (.unbound false (.like (.text other))))]]) }

/-- A name that tries to end its literal, in both forms of quoting. -/
theorem literals_stay_literals_hostile :
    ∃ sql sql' ts ts', (usersNamed "a" "b").compile = .ok sql ∧
      (usersNamed "' OR 1=1 --" "\\' OR \n").compile = .ok sql' ∧
      scan sql = some ts ∧ scan sql' = some ts' ∧ Clear ts ∧ Clear ts' ∧
      outline ts = outline ts' ∧ literals ts = [some (lit "a"), some (lit "b")] ∧
      literals ts' = [some (lit "' OR 1=1 --"), some (lit "\\' OR \n")] := by
  rcases @literals_stay_literals (usersNamed "a" "b") (usersNamed "' OR 1=1 --" "\\' OR \n")
      (by decide) rfl with ⟨e, he, _⟩ | h
  · cases he
  · exact h

end Statement

end SqlCompose
