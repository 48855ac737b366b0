import Mathlib.Data.List.Forall2
import Mathlib.Data.Option.Basic
import SqlCompose.Proofs.Filter.Leaves
import SqlCompose.Statement.Basic

/-!
# Outer blanks

Names and clause texts are read without their outer blanks.  Each is trimmed
where it is used, some in several places: a table is tested for a name, written
behind `FROM` or `JOIN`, and qualifies the columns of the joins behind it.

* `Text.Padded` is a text with blanks added on either side.  For every part of
  a statement there is a relation of the same name, which adds blanks to the
  texts that count as outer ones: names and aliases of tables, kinds of joins,
  verbatim clauses and conditions, bound fields, names and directions to group
  and sort by.  Everything else stays: keys, operators, operands, the fields of
  `ON`.
* Each renderer gets one lemma, that it does not tell a part from a padded one.

Main result: `Statement.compile_padded`.
-/

namespace SqlCompose

/-! ## Texts -/

namespace Text

/-- A text with blanks added on either side. -/
def Padded (s t : Text) : Prop :=
  ∃ front back : Text,
    front.all isBlank = true ∧ back.all isBlank = true ∧ t = front ++ s ++ back

theorem trimStart_blank_append {front : Text} (h : front.all isBlank = true) (t : Text) :
    trimStart (front ++ t) = trimStart t :=
  List.dropWhile_append_of_pos (List.all_eq_true.1 h)

theorem trimEnd_append_blank {back : Text} (h : back.all isBlank = true) (t : Text) :
    trimEnd (t ++ back) = trimEnd t := by
  have hback : ∀ c ∈ back.reverse, isBlank c = true := by simpa using h
  rw [trimEnd, List.reverse_append, List.dropWhile_append_of_pos hback, trimEnd]

theorem trim_append_blank {back : Text} (h : back.all isBlank = true) (t : Text) :
    trim (t ++ back) = trim t := by
  rw [trim, trim, trimStart, List.dropWhile_append]
  split
  · rename_i hnone
    rw [trimStart, List.isEmpty_iff.1 hnone, (dropWhile_eq_nil_iff_all isBlank back).2 h]
  · exact trimEnd_append_blank h (t.dropWhile isBlank)

namespace Padded

variable {s t : Text}

theorem refl (s : Text) : Padded s s := ⟨[], [], rfl, rfl, by simp⟩

theorem trim (h : Padded s t) : t.trim = s.trim := by
  obtain ⟨front, back, hfront, hback, rfl⟩ := h
  rw [List.append_assoc, Text.trim, trimStart_blank_append hfront, ← Text.trim,
    trim_append_blank hback]

theorem blank (h : Padded s t) : t.blank = s.blank := by
  rw [Text.blank, Text.blank, h.trim]

end Padded

end Text

/-! ## Options and lists -/

section Relations

variable {α β : Type} {R : α → α → Prop} {f : α → β}

theorem map_eq_of_rel {o o' : Option α} (h : Option.Rel R o o')
    (hf : ∀ a b, R a b → f b = f a) : o'.map f = o.map f := by
  cases h with
  | some hab => rw [Option.map_some, Option.map_some, hf _ _ hab]
  | none => rfl

theorem rel_cases {o o' : Option α} (h : Option.Rel R o o') :
    o = none ∧ o' = none ∨ ∃ a b, o = some a ∧ o' = some b ∧ R a b := by
  cases h with
  | some hab => exact .inr ⟨_, _, rfl, rfl, hab⟩
  | none => exact .inl ⟨rfl, rfl⟩

theorem rel_or {o o' later later' : Option α} (h : Option.Rel R o o')
    (hlater : Option.Rel R later later') : Option.Rel R (o.or later) (o'.or later') := by
  cases h with
  | some hab => exact .some hab
  | none => exact hlater

theorem map_eq_of_forall₂ {as bs : List α} (h : List.Forall₂ R as bs)
    (hf : ∀ a ∈ as, ∀ b, R a b → f b = f a) : bs.map f = as.map f := by
  induction h with
  | nil => rfl
  | cons hab hrest ih =>
    rw [List.forall_mem_cons] at hf
    rw [List.map_cons, List.map_cons, hf.1 _ hab, ih hf.2]

end Relations

/-! ## Tables and joins -/

/-- A table with blanks around its name and alias. -/
inductive TableRef.Padded : TableRef → TableRef → Prop
  | named {name name' : Text} (h : name.Padded name') : Padded (.named name) (.named name')
  | aliased {name name' shortName shortName' : Text} (hname : name.Padded name')
      (hshort : shortName.Padded shortName') :
      Padded (.aliased name shortName) (.aliased name' shortName')

namespace TableRef.Padded

variable {table table' : TableRef}

theorem displayName (h : Padded table table') : table'.displayName = table.displayName := by
  cases h with
  | named h => exact h.trim
  | aliased hname hshort => exact hshort.trim

theorem render (h : Padded table table') : table'.render = table.render := by
  cases h with
  | named h => rw [TableRef.render, TableRef.render, h.blank, h.trim]
  | aliased hname hshort =>
    rw [TableRef.render, TableRef.render, hname.blank, hname.trim, hshort.blank, hshort.trim]

theorem unnamed (h : Padded table table') : table'.unnamed = table.unnamed := by
  cases h with
  | named h => exact h.blank
  | aliased hname hshort => rfl

theorem renderRequired {table table' : Option TableRef} (h : Option.Rel Padded table table') :
    TableRef.renderRequired table' = TableRef.renderRequired table := by
  cases h with
  | some h => exact h.render
  | none => rfl

end TableRef.Padded

/-- A join with blanks around its kind and around the names of its table. -/
structure Join.Padded (j j' : Join) : Prop where
  kind : j.kind.Padded j'.kind
  table : Option.Rel TableRef.Padded j.table j'.table
  on : j'.on = j.on

namespace Join.Padded

variable {j j' : Join} {left left' : Option TableRef}

theorem target (h : Padded j j') : Option.Rel TableRef.Padded j.target j'.target := by
  rw [Join.target, Join.target]
  rcases rel_cases h.table with ⟨htable, htable'⟩ | ⟨_, _, htable, htable', hpadded⟩
  · rw [htable, htable']
    exact .none
  · rw [htable, htable', Option.filter_some, Option.filter_some, hpadded.unnamed]
    split
    · exact .some hpadded
    · exact .none

theorem render (h : Padded j j') (hleft : Option.Rel TableRef.Padded left left') :
    j'.render left' = j.render left := by
  have hkind : JoinKind.ofText j'.kind = JoinKind.ofText j.kind := by
    rw [JoinKind.ofText, h.kind.trim, JoinKind.ofText]
  unfold Join.render
  rw [h.on]
  rcases rel_cases hleft with ⟨rfl, rfl⟩ | ⟨_, _, rfl, rfl, hpadded⟩
  · rfl
  · rcases rel_cases h.target with ⟨htarget, htarget'⟩ | ⟨_, _, htarget, htarget', hright⟩
    · rw [htarget, htarget']
    · rw [htarget, htarget']
      cases j.on with
      | none => rfl
      | some fields =>
        dsimp only
        rw [h.kind.blank, hkind, hpadded.displayName, hright.displayName, hright.render]

theorem renderEach {joins joins' : List Join} (h : List.Forall₂ Padded joins joins')
    (hleft : Option.Rel TableRef.Padded left left') :
    Join.renderEach left' joins' = Join.renderEach left joins := by
  induction h generalizing left left' with
  | nil => rfl
  | cons hj _ ih =>
    rw [Join.renderEach, Join.renderEach, hj.render hleft, ih (rel_or hj.target hleft)]

theorem renderChain {joins joins' : List Join} (h : List.Forall₂ Padded joins joins')
    (hleft : Option.Rel TableRef.Padded left left') :
    Join.renderChain left' joins' = Join.renderChain left joins := by
  rw [Join.renderChain, Join.renderChain, renderEach h hleft]

end Join.Padded

/-! ## Projections -/

/-- A projection with blanks around its verbatim texts, at any depth. -/
inductive Projection.Padded : Projection → Projection → Prop
  | verbatim {text text' : Text} (h : text.Padded text') : Padded (.verbatim text) (.verbatim text')
  | list {items items' : List Projection} (h : List.Forall₂ Padded items items') :
      Padded (.list items) (.list items')
  | keyed (entries : List (Text × ColumnTarget)) : Padded (.keyed entries) (.keyed entries)

namespace Projection

/-- A property of the ends that lists inherit from their members is a property of all
projections. -/
@[elab_as_elim]
theorem induction {motive : Projection → Prop} (verbatim : ∀ text, motive (verbatim text))
    (list : ∀ items, (∀ item ∈ items, motive item) → motive (list items))
    (keyed : ∀ entries, motive (keyed entries)) : ∀ p, motive p :=
  @Projection.rec motive (fun items => ∀ item ∈ items, motive item) verbatim list keyed
    (fun _ h => absurd h List.not_mem_nil)
    (fun _ _ hfirst hrest => List.forall_mem_cons.2 ⟨hfirst, hrest⟩)

theorem columns_padded (p p' : Projection) (h : Padded p p') : p'.columns = p.columns := by
  induction p using Projection.induction generalizing p' with
  | verbatim text =>
    cases h with
    | verbatim h => exact h.trim
  | list items ih =>
    cases h with
    | list h =>
      rw [columns, columns, columnsOfAll_eq_map, columnsOfAll_eq_map, map_eq_of_forall₂ h ih]
  | keyed entries =>
    cases h
    rfl

theorem render_padded {p p' : Option Projection} (h : Option.Rel Padded p p') :
    Projection.render p' = Projection.render p := by
  rw [Projection.render, Projection.render, map_eq_of_rel h columns_padded]

end Projection

/-! ## Conditions -/

/-- A criterion with blanks around the field that it is bound to. -/
structure Criterion.Padded (c c' : Criterion) : Prop where
  field : Option.Rel Text.Padded c.field c'.field
  predicate : c'.predicate = c.predicate

theorem Criterion.Padded.render {c c' : Criterion} (h : Padded c c') (context : Option Text) :
    c'.render context = c.render context := by
  have hcontext : Option.Rel Text.Padded context context := by
    cases context with
    | none => exact .none
    | some field => exact .some (.refl field)
  have hfield : (c'.field.or context).map Text.trim = (c.field.or context).map Text.trim :=
    map_eq_of_rel (rel_or h.field hcontext) fun _ _ => Text.Padded.trim
  rw [Criterion.render, Criterion.render, h.predicate, hfield]

/-- What a field is listed with, with blanks around the bound field of a criterion. -/
inductive Operand.Padded : Operand → Operand → Prop
  | value (v : Value) : Padded (.value v) (.value v)
  | criterion {c c' : Criterion} (h : c.Padded c') : Padded (.criterion c) (.criterion c')

theorem Operand.Padded.render {operand operand' : Operand} (h : Padded operand operand')
    (field : Text) : operand'.render field = operand.render field := by
  cases h with
  | value v => rfl
  | criterion h => exact h.render (some field)

/-- A condition with blanks around its verbatim texts and bound fields, at any depth.  A
disjunction is a text, once it is made, and may get blanks as such. -/
inductive Condition.Padded : Condition → Condition → Prop
  | sql {text text' : Text} (h : text.Padded text') : Padded (.sql text) (.sql text')
  | criterion {c c' : Criterion} (h : c.Padded c') : Padded (.criterion c) (.criterion c')
  | all {items items' : List Condition} (h : List.Forall₂ Padded items items') :
      Padded (.all items) (.all items')
  | any {arms arms' : List Condition} (h : List.Forall₂ Padded arms arms') :
      Padded (.any arms) (.any arms')
  | disjunction {arms arms' : List Condition} {text : Text} (h : List.Forall₂ Padded arms arms')
      (htext : (Condition.disjunctionText arms').Padded text) : Padded (.any arms) (.sql text)
  | fields {entries entries' : List (Text × Operand)}
      (h : List.Forall₂ (fun entry entry' => entry'.1 = entry.1 ∧ entry.2.Padded entry'.2)
        entries entries') :
      Padded (.fields entries) (.fields entries')

namespace Condition

/-- The arms of a disjunction are seen only through what they are written as. -/
theorem disjunctionText_congr {arms arms' : List Condition}
    (h : arms'.map render = arms.map render) : disjunctionText arms' = disjunctionText arms := by
  rw [disjunctionText, disjunctionText, armTexts_eq_map, armTexts_eq_map, h]

theorem parts_padded (c c' : Condition) (h : Padded c c') : c'.parts = c.parts := by
  induction c using Condition.induction generalizing c' with
  | sql text =>
    cases h with
    | sql h => rw [parts, parts, h.trim]
  | criterion c =>
    cases h with
    | criterion h => rw [parts, parts, h.render]
  | all items ih =>
    cases h with
    | all h =>
      rw [parts, parts, partsOfAll_eq_flatMap, partsOfAll_eq_flatMap, List.flatMap_def,
        List.flatMap_def, map_eq_of_forall₂ h ih]
  | any arms ih =>
    have hrender : ∀ arm ∈ arms, ∀ arm', Padded arm arm' → arm'.render = arm.render :=
      fun arm harm arm' h => congrArg conjunction (ih arm harm arm' h)
    have hparts : ∀ arms, (any arms).parts = element (disjunctionText arms).trim := by
      intro arms
      rw [parts, disjunctionText]
    cases h with
    | any h =>
      rw [hparts, hparts, disjunctionText_congr (map_eq_of_forall₂ h hrender)]
    | disjunction h htext =>
      rw [hparts, parts, htext.trim, disjunctionText_congr (map_eq_of_forall₂ h hrender)]
  | fields entries =>
    cases h with
    | fields h =>
      have hentry : ∀ entry ∈ entries, ∀ entry' : Text × Operand,
          entry'.1 = entry.1 ∧ entry.2.Padded entry'.2 →
            entry'.2.render entry'.1 = entry.2.render entry.1 := by
        intro entry _ entry' h
        rw [h.1, h.2.render]
      exact congrArg Text.nonempty (map_eq_of_forall₂ h hentry)

theorem clause_padded (keyword : Text) {c c' : Option Condition} (h : Option.Rel Padded c c') :
    clause keyword c' = clause keyword c := by
  have hrender : ∀ c c', Padded c c' → c'.render = c.render :=
    fun c c' h => congrArg conjunction (parts_padded c c' h)
  rw [clause, clause, map_eq_of_rel h hrender]

end Condition

/-! ## Groups, order and limits -/

/-- Names, each with blanks added on either side, are joined the same. -/
theorem joinNames_padded {names names' : List Text} (h : List.Forall₂ Text.Padded names names') :
    joinNames names' = joinNames names := by
  rw [joinNames, joinNames, map_eq_of_forall₂ h fun _ _ _ => Text.Padded.trim]

/-- A grouping with blanks around its text or its names. -/
inductive GroupBy.Padded : GroupBy → GroupBy → Prop
  | verbatim {text text' : Text} (h : text.Padded text') : Padded (.verbatim text) (.verbatim text')
  | names {list list' : List Text} (h : List.Forall₂ Text.Padded list list') :
      Padded (.names list) (.names list')

namespace GroupBy

theorem body_padded (g g' : GroupBy) (h : Padded g g') : g'.body = g.body := by
  cases h with
  | verbatim h => exact h.trim
  | names h => exact joinNames_padded h

theorem clauseWithHaving_padded {g g' : Option GroupBy} (h : Option.Rel Padded g g')
    {c c' : Option Condition} (hc : Option.Rel Condition.Padded c c') :
    clauseWithHaving g' c' = clauseWithHaving g c := by
  have hclause : clause g' = clause g := by
    rw [clause, clause, map_eq_of_rel h body_padded]
  rw [clauseWithHaving, clauseWithHaving, havingClause, havingClause, hclause,
    Condition.clause_padded "HAVING" hc]

end GroupBy

/-- An order with blanks around its text, or around its names or fields and directions. -/
inductive OrderBy.Padded : OrderBy → OrderBy → Prop
  | verbatim {text text' : Text} (h : text.Padded text') : Padded (.verbatim text) (.verbatim text')
  | names {list list' : List Text} (h : List.Forall₂ Text.Padded list list') :
      Padded (.names list) (.names list')
  | directed {entries entries' : List (Text × Text)}
      (h : List.Forall₂ (fun entry entry' => entry.1.Padded entry'.1 ∧ entry.2.Padded entry'.2)
        entries entries') :
      Padded (.directed entries) (.directed entries')

namespace OrderBy

theorem entry_padded {field field' word word' : Text} (hfield : field.Padded field')
    (hword : word.Padded word') : entry field' word' = entry field word := by
  rw [entry, entry, hfield.blank, hfield.trim, direction, direction, hword.trim]

theorem body_padded (o o' : OrderBy) (h : Padded o o') : o'.body = o.body := by
  cases h with
  | verbatim h => exact h.trim
  | names h => exact joinNames_padded h
  | directed h =>
    exact congrArg (Text.joinNonempty ", ")
      (map_eq_of_forall₂ h fun _ _ _ hpadded => entry_padded hpadded.1 hpadded.2)

theorem clause_padded {o o' : Option OrderBy} (h : Option.Rel Padded o o') :
    clause o' = clause o := by
  rw [clause, clause, map_eq_of_rel h body_padded]

end OrderBy

/-- A limit with blanks around its text; the other limits are numbers. -/
inductive RowLimit.Padded : RowLimit → RowLimit → Prop
  | verbatim {text text' : Text} (h : text.Padded text') : Padded (.verbatim text) (.verbatim text')
  | number (l : RowLimit) : Padded l l

namespace RowLimit

theorem body_padded (l l' : RowLimit) (h : Padded l l') : l'.body = l.body := by
  cases h with
  | verbatim h => exact h.trim
  | number => rfl

theorem clause_padded {l l' : Option RowLimit} (h : Option.Rel Padded l l') :
    clause l' = clause l := by
  rw [clause, clause, map_eq_of_rel h body_padded]

end RowLimit

/-! ## Assignments -/

/-- Assignments with blanks around their verbatim texts. -/
inductive Assignments.Padded : Assignments → Assignments → Prop
  | verbatim {text text' : Text} (h : text.Padded text') : Padded (.verbatim text) (.verbatim text')
  | fields (entries : Row) : Padded (.fields entries) (.fields entries)
  | list {items items' : List Assignments} (h : List.Forall₂ Padded items items') :
      Padded (.list items) (.list items')

namespace Assignments

theorem part_padded (a a' : Assignments) (h : Padded a a') : a'.part = a.part := by
  cases h with
  | verbatim h => exact h.trim
  | fields entries => rfl
  | list h => rfl

theorem render_padded (a a' : Assignments) (h : Padded a a') : a'.render = a.render := by
  cases h with
  | verbatim h => exact h.trim
  | fields entries => rfl
  | list h =>
    rw [render, render, map_eq_of_forall₂ h fun a _ => part_padded a]

end Assignments

/-! ## Statements -/

/-- A `SELECT` with blanks around the texts of its clauses. -/
structure SelectQuery.Padded (q q' : SelectQuery) : Prop where
  table : Option.Rel TableRef.Padded q.table q'.table
  joins : List.Forall₂ Join.Padded q.joins q'.joins
  distinct : q'.distinct = q.distinct
  top : q'.top = q.top
  fields : Option.Rel Projection.Padded q.fields q'.fields
  filter : Option.Rel Condition.Padded q.filter q'.filter
  groupBy : Option.Rel GroupBy.Padded q.groupBy q'.groupBy
  having : Option.Rel Condition.Padded q.having q'.having
  orderBy : Option.Rel OrderBy.Padded q.orderBy q'.orderBy
  limit : Option.Rel RowLimit.Padded q.limit q'.limit

theorem SelectQuery.compile_padded {q q' : SelectQuery} (h : Padded q q') :
    q'.compile = q.compile := by
  rw [compile, compile, TableRef.Padded.renderRequired h.table,
    Join.Padded.renderChain h.joins h.table, h.distinct, h.top, Projection.render_padded h.fields,
    Condition.whereClause, Condition.whereClause, Condition.clause_padded "WHERE" h.filter,
    GroupBy.clauseWithHaving_padded h.groupBy h.having, OrderBy.clause_padded h.orderBy,
    RowLimit.clause_padded h.limit]

/-- A union with blanks around the texts of its queries and of its order. -/
structure UnionQuery.Padded (u u' : UnionQuery) : Prop where
  selects : List.Forall₂ SelectQuery.Padded u.selects u'.selects
  orderBy : Option.Rel OrderBy.Padded u.orderBy u'.orderBy
  keepsDuplicates : u'.keepsDuplicates = u.keepsDuplicates

namespace UnionQuery

theorem mapM_compile_padded {selects selects' : List SelectQuery}
    (h : List.Forall₂ SelectQuery.Padded selects selects') :
    selects'.mapM SelectQuery.compile = selects.mapM SelectQuery.compile := by
  induction h with
  | nil => rfl
  | cons hq _ ih => rw [List.mapM_cons, List.mapM_cons, SelectQuery.compile_padded hq, ih]

theorem compile_padded {u u' : UnionQuery} (h : Padded u u') : u'.compile = u.compile := by
  rw [compile, compile, compileKeeping, compileKeeping, h.keepsDuplicates,
    mapM_compile_padded h.selects, OrderBy.clause_padded h.orderBy]

end UnionQuery

/-- An `INSERT` with blanks around its table and its verbatim lists. -/
structure InsertCommand.Padded (c c' : InsertCommand) : Prop where
  table : Option.Rel TableRef.Padded c.table c'.table
  payload : c'.payload = c.payload
  fields : Option.Rel Text.Padded c.fields c'.fields
  values : Option.Rel Text.Padded c.values c'.values

namespace InsertCommand

theorem verbatimList_padded {list list' : Option Text} (h : Option.Rel Text.Padded list list') :
    verbatimList list' = verbatimList list := by
  rw [verbatimList, verbatimList, map_eq_of_rel h fun _ _ => Text.Padded.trim]

theorem compile_padded {c c' : InsertCommand} (h : Padded c c') : c'.compile = c.compile := by
  have hparts : c'.parts = c.parts := by
    rw [parts, parts, h.payload, verbatimList_padded h.fields, verbatimList_padded h.values]
  rw [compile, compile, TableRef.Padded.renderRequired h.table, hparts]

end InsertCommand

/-- An `UPDATE` with blanks around the texts of its clauses. -/
structure UpdateCommand.Padded (c c' : UpdateCommand) : Prop where
  table : Option.Rel TableRef.Padded c.table c'.table
  assignments : Option.Rel Assignments.Padded c.assignments c'.assignments
  filter : Option.Rel Condition.Padded c.filter c'.filter
  orderBy : Option.Rel OrderBy.Padded c.orderBy c'.orderBy
  limit : Option.Rel RowLimit.Padded c.limit c'.limit

theorem UpdateCommand.compile_padded {c c' : UpdateCommand} (h : Padded c c') :
    c'.compile = c.compile := by
  rw [compile, compile, TableRef.Padded.renderRequired h.table,
    map_eq_of_rel h.assignments Assignments.render_padded, Condition.whereClause,
    Condition.whereClause, Condition.clause_padded "WHERE" h.filter,
    OrderBy.clause_padded h.orderBy, RowLimit.clause_padded h.limit]

/-- A `DELETE` with blanks around the texts of its clauses. -/
structure DeleteCommand.Padded (c c' : DeleteCommand) : Prop where
  table : Option.Rel TableRef.Padded c.table c'.table
  filter : Option.Rel Condition.Padded c.filter c'.filter
  orderBy : Option.Rel OrderBy.Padded c.orderBy c'.orderBy
  limit : Option.Rel RowLimit.Padded c.limit c'.limit

theorem DeleteCommand.compile_padded {c c' : DeleteCommand} (h : Padded c c') :
    c'.compile = c.compile := by
  rw [compile, compile, TableRef.Padded.renderRequired h.table, Condition.whereClause,
    Condition.whereClause, Condition.clause_padded "WHERE" h.filter,
    OrderBy.clause_padded h.orderBy, RowLimit.clause_padded h.limit]

/-- A statement with blanks around the texts that are read without outer blanks. -/
inductive Statement.Padded : Statement → Statement → Prop
  | select {q q' : SelectQuery} (h : q.Padded q') : Padded (.select q) (.select q')
  | union {u u' : UnionQuery} (h : u.Padded u') : Padded (.union u) (.union u')
  | insert {c c' : InsertCommand} (h : c.Padded c') : Padded (.insert c) (.insert c')
  | update {c c' : UpdateCommand} (h : c.Padded c') : Padded (.update c) (.update c')
  | delete {c c' : DeleteCommand} (h : c.Padded c') : Padded (.delete c) (.delete c')

/-- Outer blanks are never significant: a padded statement has the same SQL, or the same
error. -/
theorem Statement.outer_blanks_insignificant {s s' : Statement} (h : Padded s s') :
    s'.compile = s.compile := by
  cases h with
  | select h => exact SelectQuery.compile_padded h
  | union h => exact UnionQuery.compile_padded h
  | insert h => exact InsertCommand.compile_padded h
  | update h => exact UpdateCommand.compile_padded h
  | delete h => exact DeleteCommand.compile_padded h

/-- A tab in front and a no-break space behind. -/
def Text.pad (s : Text) : Text := '\t' :: s ++ [Char.ofNat 0xA0]

theorem Text.padded_pad (s : Text) : s.Padded s.pad :=
  ⟨['\t'], [Char.ofNat 0xA0], by decide, by decide, by simp [pad]⟩

/-- The query with the given kind of join and the given texts in its condition and its order. -/
def Statement.joined (kind left right sql field name word : Text) : Statement :=
  .select
    { table := some (.aliased left "o")
      joins := [{ kind := kind, table := some (.named right), on := some (lit "user", lit "id") }]
      filter := some (.all [.any [.sql sql, .criterion ⟨some field, ⟨false, .isNull⟩⟩]])
      orderBy := some (.directed [(name, word)]) }

theorem Statement.padded_joined (kind left right sql field name word : Text) :
    (joined kind left right sql field name word).Padded
      (joined kind.pad left.pad right.pad sql.pad field.pad name.pad word.pad) :=
  .select
    { table := .some (.aliased left.padded_pad (.refl _))
      joins := .cons ⟨kind.padded_pad, .some (.named right.padded_pad), rfl⟩ .nil
      distinct := rfl
      top := rfl
      fields := .none
      filter := .some (.all (.cons (.any (.cons (.sql sql.padded_pad)
        (.cons (.criterion ⟨.some field.padded_pad, rfl⟩) .nil))) .nil))
      groupBy := .none
      having := .none
      orderBy := .some (.directed (.cons ⟨name.padded_pad, word.padded_pad⟩ .nil))
      limit := .none }

theorem Statement.outer_blanks_insignificant_joined :
    (Statement.joined "left" "orders" "users" "paid" "note" "id" "desc").Padded
        (Statement.joined (Text.pad "left") (Text.pad "orders") (Text.pad "users")
          (Text.pad "paid") (Text.pad "note") (Text.pad "id") (Text.pad "desc")) ∧
      (Statement.joined (Text.pad "left") (Text.pad "orders") (Text.pad "users")
          (Text.pad "paid") (Text.pad "note") (Text.pad "id") (Text.pad "desc")).compile =
        .ok (lit "SELECT * FROM orders AS o LEFT JOIN users ON o.user = users.id" ++
          lit " WHERE (paid OR note IS NULL) ORDER BY id DESC") := by
  have hpadded := Statement.padded_joined "left" "orders" "users" "paid" "note" "id" "desc"
  refine ⟨hpadded, (Statement.outer_blanks_insignificant hpadded).trans ?_⟩
  rfl

end SqlCompose
