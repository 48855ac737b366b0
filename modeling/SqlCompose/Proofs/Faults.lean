import SqlCompose.Statement.Basic

/-!
# What statements are refused for

A statement takes its rows from sources, each a table with the tables that
are joined to it.  `Source.Fault` says what can be wrong with one, and
`FirstFault` that the first source with a fault decides for all of them.

`Statement.compile_fault_iff` is the main result: a statement is refused for
the first fault of its sources and for nothing else.  The lemmas before it say
what tables (`TableRef.renderRequired_eq_error_iff`), joins
(`Join.renderEach_eq_error_iff`) and queries (`SelectQuery.compile_eq_error_iff`)
fail for.
-/

namespace SqlCompose

/-! ## Faults -/

/-- Whether no part of a table reference is blank. -/
def TableRef.Usable : TableRef → Prop
  | named name => name.blank = false
  | aliased name shortName => name.blank = false ∧ shortName.blank = false

/-- A table with the tables that are joined to it. -/
structure Source where
  table : Option TableRef
  joins : List Join := []

/-- Whether a join is complete but for its table, which has an alias and a blank part.  A
blank name alone is no fault, since such a join is left out. -/
def Join.Faulty (j : Join) : Prop :=
  j.kind.blank = false ∧ j.on.isSome = true ∧
    ∃ name shortName, j.table = some (.aliased name shortName) ∧
      ¬(TableRef.aliased name shortName).Usable

/-- What can be wrong with a source. -/
inductive Source.Fault : Source → TableError → Prop
  | unset {joins : List Join} : Fault ⟨none, joins⟩ .invalidName
  | blankName {name : Text} {joins : List Join} (h : ¬(TableRef.named name).Usable) :
      Fault ⟨some (.named name), joins⟩ .invalidName
  | blankEntry {name shortName : Text} {joins : List Join}
      (h : ¬(TableRef.aliased name shortName).Usable) :
      Fault ⟨some (.aliased name shortName), joins⟩ .missingEntry
  | joined {table : TableRef} {joins : List Join} {j : Join} (htable : table.Usable)
      (hj : j ∈ joins) (h : j.Faulty) : Fault ⟨some table, joins⟩ .missingEntry

/-- The first source with a fault has this one. -/
inductive FirstFault : List Source → TableError → Prop
  | here {source : Source} {rest : List Source} {e : TableError} (h : source.Fault e) :
      FirstFault (source :: rest) e
  | later {source : Source} {rest : List Source} {e : TableError} (hsource : ∀ e, ¬source.Fault e)
      (h : FirstFault rest e) : FirstFault (source :: rest) e

/-- The source of a query. -/
def SelectQuery.source (q : SelectQuery) : Source := ⟨q.table, q.joins⟩

/-- The sources of a statement, in order. -/
def Statement.sources : Statement → List Source
  | select q => [q.source]
  | union u => u.selects.map SelectQuery.source
  | insert c => [{ table := c.table }]
  | update c => [{ table := c.table }]
  | delete c => [{ table := c.table }]

variable {e : TableError}

theorem firstFault_singleton_iff {source : Source} :
    FirstFault [source] e ↔ source.Fault e := by
  constructor
  · intro h
    cases h with
    | here h => exact h
    | later _ h => cases h
  · exact .here

/-- A source cannot have a fault that is first and one that is not. -/
theorem firstFault_cons_iff {source : Source} {rest : List Source} :
    FirstFault (source :: rest) e ↔
      source.Fault e ∨ (∀ e, ¬source.Fault e) ∧ FirstFault rest e := by
  constructor
  · intro h
    cases h with
    | here h => exact .inl h
    | later hsource h => exact .inr ⟨hsource, h⟩
  · rintro (h | ⟨hsource, h⟩)
    · exact .here h
    · exact .later hsource h

/-! ## Results and errors -/

section Results

variable {ε α β γ : Type}

theorem exists_eq_ok_iff {x : Except ε α} : (∃ a, x = .ok a) ↔ ∀ e, x ≠ .error e := by
  cases x <;> simp

theorem bind_pure_eq_error_iff {x : Except ε α} {f : α → β} {e : ε} :
    (do let a ← x; return f a) = .error e ↔ x = .error e := by
  cases x <;> simp [bind, Except.bind, pure, Except.pure]

/-- Of two results one behind the other, the first that fails decides. -/
theorem bind_bind_eq_error_iff {x : Except ε α} {y : Except ε β} {f : α → β → γ} {e : ε} :
    (do let a ← x; let b ← y; return f a b) = .error e ↔
      x = .error e ∨ (∃ a, x = .ok a) ∧ y = .error e := by
  cases x with
  | error e' => simp [bind, Except.bind]
  | ok a => cases y <;> simp [bind, Except.bind, pure, Except.pure]

end Results

/-! ## Tables -/

namespace TableRef

theorem exists_render_eq_ok_iff {table : TableRef} :
    (∃ text, table.render = .ok text) ↔ table.Usable := by
  cases table with
  | named name => cases hname : name.blank <;> simp [render, Usable, hname]
  | aliased name shortName =>
    cases hname : name.blank <;> cases hshort : shortName.blank <;>
      simp [render, Usable, hname, hshort]

/-- The error of a table reference is decided by its form. -/
theorem render_named_eq_error_iff {name : Text} :
    (named name).render = .error e ↔ ¬(named name).Usable ∧ e = .invalidName := by
  cases hname : name.blank <;> simp [render, Usable, hname, eq_comm]

theorem render_aliased_eq_error_iff {name shortName : Text} :
    (aliased name shortName).render = .error e ↔
      ¬(aliased name shortName).Usable ∧ e = .missingEntry := by
  cases hname : name.blank <;> cases hshort : shortName.blank <;>
    simp [render, Usable, hname, hshort, eq_comm]

/-- A statement without joins is refused for its table. -/
theorem renderRequired_eq_error_iff {table : Option TableRef} :
    renderRequired table = .error e ↔ Source.Fault { table } e := by
  constructor
  · intro h
    match table, h with
    | none, h =>
      obtain rfl : .invalidName = e := Except.error.inj h
      exact .unset
    | some (.named name), h =>
      obtain ⟨hunusable, rfl⟩ := render_named_eq_error_iff.1 h
      exact .blankName hunusable
    | some (.aliased name shortName), h =>
      obtain ⟨hunusable, rfl⟩ := render_aliased_eq_error_iff.1 h
      exact .blankEntry hunusable
  · intro h
    cases h with
    | unset => rfl
    | blankName h => exact render_named_eq_error_iff.2 ⟨h, rfl⟩
    | blankEntry h => exact render_aliased_eq_error_iff.2 ⟨h, rfl⟩
    | joined _ hj _ => exact absurd hj List.not_mem_nil

end TableRef

/-! ## Joins -/

namespace Join

/-- The target of a join cannot be written only if it has an alias. -/
theorem target_render_eq_error_iff {j : Join} {right : TableRef} (htarget : j.target = some right) :
    right.render = .error e ↔
      (∃ name shortName, j.table = some (.aliased name shortName) ∧
        ¬(TableRef.aliased name shortName).Usable) ∧ e = .missingEntry := by
  obtain ⟨htable, hnamed⟩ := Option.filter_eq_some_iff.1 htarget
  rw [htable]
  cases right with
  | named name =>
    have husable : (TableRef.named name).Usable := by
      simpa [TableRef.unnamed, TableRef.Usable] using hnamed
    simp [TableRef.render_named_eq_error_iff, husable]
  | aliased name shortName =>
    rw [TableRef.render_aliased_eq_error_iff]
    constructor
    · rintro ⟨h, he⟩
      exact ⟨⟨name, shortName, rfl, h⟩, he⟩
    · rintro ⟨⟨_, _, heq, h⟩, he⟩
      rw [Option.some.inj heq]
      exact ⟨h, he⟩

/-- A join behind a table fails if it is faulty, and in one way. -/
theorem render_eq_error_iff {j : Join} {left : TableRef} :
    j.render (some left) = .error e ↔ j.Faulty ∧ e = .missingEntry := by
  unfold render
  split
  · rename_i left' right leftField rightField _ htarget hon
    have hright := target_render_eq_error_iff (e := e) htarget
    cases hkind : j.kind.blank with
    | true => simp [Faulty, hkind]
    | false =>
      rw [if_neg (by simp), bind_pure_eq_error_iff, hright]
      simp [Faulty, hkind, hon]
  · rename_i hincomplete
    refine ⟨fun h => (by cases h), ?_⟩
    rintro ⟨⟨-, hon, name, shortName, htable, -⟩, -⟩
    obtain ⟨⟨leftField, rightField⟩, hfields⟩ := Option.isSome_iff_exists.1 hon
    exact absurd hfields (hincomplete left _ leftField rightField rfl (by rw [target, htable]; rfl))

/-- The joins of a chain fail if one of them is faulty, whatever the chain begins with. -/
theorem renderEach_eq_error_iff {left : TableRef} {joins : List Join} :
    renderEach (some left) joins = .error e ↔ (∃ j ∈ joins, j.Faulty) ∧ e = .missingEntry := by
  induction joins generalizing left with
  | nil => simp [renderEach]
  | cons j rest ih =>
    obtain ⟨next, hnext⟩ : ∃ next, j.target.or (some left) = some next := by
      cases j.target <;> exact ⟨_, rfl⟩
    rw [renderEach, bind_bind_eq_error_iff, exists_eq_ok_iff, hnext, ih]
    simp only [ne_eq, render_eq_error_iff]
    by_cases hj : j.Faulty <;> simp [hj]

end Join

/-! ## Queries -/

/-- A source has the fault of its table, or its table is usable and a join is faulty. -/
theorem Source.fault_iff {table : Option TableRef} {joins : List Join} :
    Source.Fault ⟨table, joins⟩ e ↔ Source.Fault { table } e ∨
      ∃ left, table = some left ∧ left.Usable ∧ (∃ j ∈ joins, j.Faulty) ∧ e = .missingEntry := by
  constructor
  · intro h
    cases h with
    | unset => exact .inl .unset
    | blankName h => exact .inl (.blankName h)
    | blankEntry h => exact .inl (.blankEntry h)
    | joined htable hj h => exact .inr ⟨_, rfl, htable, ⟨_, hj, h⟩, rfl⟩
  · rintro (h | ⟨left, rfl, husable, ⟨j, hj, h⟩, rfl⟩)
    · cases h with
      | unset => exact .unset
      | blankName h => exact .blankName h
      | blankEntry h => exact .blankEntry h
      | joined _ hj _ => exact absurd hj List.not_mem_nil
    · exact .joined husable hj h

namespace SelectQuery

/-- A query is refused for the fault of its source. -/
theorem compile_eq_error_iff {q : SelectQuery} : q.compile = .error e ↔ q.source.Fault e := by
  rw [compile, bind_bind_eq_error_iff, TableRef.renderRequired_eq_error_iff]
  refine (or_congr_right ?_).trans Source.fault_iff.symm
  cases htable : q.table with
  | none => simp [TableRef.renderRequired]
  | some left =>
    rw [TableRef.renderRequired, TableRef.exists_render_eq_ok_iff, Join.renderChain,
      bind_pure_eq_error_iff, Join.renderEach_eq_error_iff]
    simp

/-- Between brackets a query fails as it does alone. -/
theorem compileSubquery_eq_error_iff {q : SelectQuery} :
    q.compileSubquery = .error e ↔ q.source.Fault e := by
  rw [compileSubquery, bind_pure_eq_error_iff, compile_eq_error_iff]

/-- Queries one after the other fail as the first of them that fails. -/
theorem mapM_compile_eq_error_iff {queries : List SelectQuery} :
    queries.mapM compile = .error e ↔ FirstFault (queries.map source) e := by
  induction queries with
  | nil => exact ⟨fun h => (by cases h), fun h => (by cases h)⟩
  | cons q rest ih =>
    have hfirst : (∃ sql, q.compile = .ok sql) ↔ ∀ e, ¬q.source.Fault e := by
      simp only [exists_eq_ok_iff, ne_eq, compile_eq_error_iff]
    rw [List.mapM_cons, bind_bind_eq_error_iff, compile_eq_error_iff, hfirst, ih, List.map_cons,
      firstFault_cons_iff]

end SelectQuery

/-- A union fails as the first of its queries that fails, whether equal rows are kept or not. -/
theorem UnionQuery.compileKeeping_eq_error_iff {u : UnionQuery} {duplicates : Bool} :
    u.compileKeeping duplicates = .error e ↔ FirstFault (u.selects.map SelectQuery.source) e := by
  rw [compileKeeping, bind_pure_eq_error_iff, SelectQuery.mapM_compile_eq_error_iff]

/-! ## Commands -/

theorem InsertCommand.compile_eq_error_iff {c : InsertCommand} :
    c.compile = .error e ↔ Source.Fault { table := c.table } e := by
  rw [← TableRef.renderRequired_eq_error_iff, compile]
  cases TableRef.renderRequired c.table with
  | error e' => simp [bind, Except.bind]
  | ok table =>
    simp only [bind, Except.bind]
    split <;> simp [pure, Except.pure]

theorem UpdateCommand.compile_eq_error_iff {c : UpdateCommand} :
    c.compile = .error e ↔ Source.Fault { table := c.table } e := by
  rw [compile, bind_pure_eq_error_iff, TableRef.renderRequired_eq_error_iff]

theorem DeleteCommand.compile_eq_error_iff {c : DeleteCommand} :
    c.compile = .error e ↔ Source.Fault { table := c.table } e := by
  rw [compile, bind_pure_eq_error_iff, TableRef.renderRequired_eq_error_iff]

/-! ## Statements -/

namespace Statement

theorem compile_eq_error_iff {s : Statement} : s.compile = .error e ↔ FirstFault s.sources e := by
  cases s with
  | select q => rw [compile, SelectQuery.compile_eq_error_iff, sources, firstFault_singleton_iff]
  | union u => rw [compile, UnionQuery.compile, UnionQuery.compileKeeping_eq_error_iff, sources]
  | insert c => rw [compile, InsertCommand.compile_eq_error_iff, sources, firstFault_singleton_iff]
  | update c => rw [compile, UpdateCommand.compile_eq_error_iff, sources, firstFault_singleton_iff]
  | delete c => rw [compile, DeleteCommand.compile_eq_error_iff, sources, firstFault_singleton_iff]

/-- Sources without a first fault have no fault at all. -/
theorem forall_not_firstFault_iff {sources : List Source} :
    (∀ e, ¬FirstFault sources e) ↔ ∀ source ∈ sources, ∀ e, ¬source.Fault e := by
  induction sources with
  | nil => exact ⟨fun _ _ hmem => absurd hmem List.not_mem_nil, fun _ _ h => (by cases h)⟩
  | cons source rest ih =>
    rw [List.forall_mem_cons, ← ih]
    simp only [firstFault_cons_iff, not_or, not_and, forall_and]
    constructor
    · rintro ⟨hsource, hrest⟩
      exact ⟨hsource, fun e => hrest e hsource⟩
    · rintro ⟨hsource, hrest⟩
      exact ⟨hsource, fun e _ => hrest e⟩

theorem exists_compile_eq_ok_iff {s : Statement} :
    (∃ sql, s.compile = .ok sql) ↔ ∀ source ∈ s.sources, ∀ e, ¬source.Fault e := by
  simp only [← forall_not_firstFault_iff, exists_eq_ok_iff, ne_eq, compile_eq_error_iff]

/-- A statement is refused for the first fault of its sources and compiles if they have none,
so its other clauses have no say in it.  The two kinds of unions fail alike, and a query fails
alike as a statement and inside another one. -/
theorem compile_fault_iff :
    (∀ (s : Statement) (e : TableError), s.compile = .error e ↔ FirstFault s.sources e) ∧
      (∀ s : Statement,
        (∃ sql, s.compile = .ok sql) ↔ ∀ source ∈ s.sources, ∀ e, ¬source.Fault e) ∧
      (∀ (s s' : Statement) (e : TableError), s.sources = s'.sources →
        (s.compile = .error e ↔ s'.compile = .error e)) ∧
      (∀ (u : UnionQuery) (duplicates : Bool) (e : TableError),
        u.compileKeeping duplicates = .error e ↔ (union u).compile = .error e) ∧
      ∀ (q : SelectQuery) (e : TableError),
        q.compileSubquery = .error e ↔ (select q).compile = .error e := by
  refine ⟨fun s e => compile_eq_error_iff, fun s => exists_compile_eq_ok_iff, ?_, ?_, ?_⟩
  · intro s s' e hsources
    rw [compile_eq_error_iff, compile_eq_error_iff, hsources]
  · intro u duplicates e
    rw [UnionQuery.compileKeeping_eq_error_iff, compile_eq_error_iff, sources]
  · intro q e
    rw [SelectQuery.compileSubquery_eq_error_iff, compile, SelectQuery.compile_eq_error_iff]

/-- In the second query of a union a join has a blank alias, which an order does not change. -/
theorem compile_fault_iff_union :
    let faulty : Join :=
      { kind := lit "LEFT", table := some (.aliased "b" " "), on := some ("i", "j") }
    let first : SelectQuery := { table := some (.named "a") }
    let second : SelectQuery := { table := some (.named "a"), joins := [faulty] }
    let u : UnionQuery := { selects := [first, second] }
    let ordered : UnionQuery := { u with orderBy := some (.verbatim "i") }
    (union u).compile = .error .missingEntry ∧ (union ordered).compile = .error .missingEntry ∧
      u.compileKeeping true = .error .missingEntry ∧
      second.compileSubquery = .error .missingEntry := by
  intro faulty first second u ordered
  obtain ⟨hfault, -, hclauses, hkinds, hinside⟩ := compile_fault_iff
  have hfaulty : faulty.Faulty :=
    ⟨by decide, rfl, "b", " ", rfl, by simp only [TableRef.Usable]; decide⟩
  have hsecond : second.source.Fault .missingEntry :=
    .joined (by simp only [TableRef.Usable]; decide) (List.mem_singleton.2 rfl) hfaulty
  have hfirst : ∀ e, ¬first.source.Fault e := by
    intro e h
    cases h with
    | blankName h => exact h (by simp only [TableRef.Usable]; decide)
    | joined _ hj _ => exact absurd hj List.not_mem_nil
  have hu : (union u).compile = .error .missingEntry :=
    (hfault (union u) .missingEntry).2 (.later hfirst (.here hsecond))
  refine ⟨hu, ?_, ?_, ?_⟩
  · exact (hclauses (union u) (union ordered) .missingEntry rfl).1 hu
  · exact (hkinds u true .missingEntry).2 hu
  · exact (hinside second .missingEntry).2 ((hfault _ .missingEntry).2 (.here hsecond))

end Statement

end SqlCompose
