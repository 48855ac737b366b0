import Mathlib
import SqlCompose.Proofs.Padding
import SqlCompose.Proofs.Position

/-!
# Grouping of columns

Each level of a projection is joined on its own, and a level that says nothing
is left out.  How columns are put into levels is not to be seen in what is
written: only the columns count, from left to right.

* `Text.joinNonempty_flatten`: joining level by level is joining once.
* `leaves` lists the columns of a projection, `said` those that say something.
  `columns_eq_said` is the one fact about what is written.
* `Regrouped` is the congruence of all regroupings: lists in lists, keys of
  several columns, and whatever is empty or blank.  `regrouped_iff` says that it
  keeps what is said and that it reaches whatever says the same.

Main result: `grouping_unobservable`.
-/

namespace SqlCompose

/-! ## Joining level by level -/

namespace Text

/-- Pieces may be joined among themselves before they are joined with the others. -/
theorem joinNonempty_part (sep : Text) (before part behind : List Text) :
    joinNonempty sep (before ++ joinNonempty sep part :: behind) =
      joinNonempty sep (before ++ part ++ behind) := by
  have hcons : ∀ piece : Text, piece ≠ [] →
      nonempty (piece :: behind) = piece :: nonempty behind := by
    intro piece hpiece
    simp [nonempty, hpiece]
  have hpart : joinNonempty sep part = joinWith sep (nonempty part) := rfl
  rw [joinNonempty, nonempty_append, joinNonempty.eq_def sep (before ++ part ++ behind),
    nonempty_append, nonempty_append]
  cases hsaid : nonempty part with
  | nil =>
    rw [hpart, hsaid]
    simp [nonempty]
  | cons first others =>
    have hfirst : first ≠ [] := by
      have hmem : first ∈ nonempty part := hsaid ▸ List.mem_cons_self
      exact (mem_nonempty.1 hmem).2
    have hjoined : joinNonempty sep part = first ++ others.flatMap (sep ++ ·) := by
      rw [hpart, hsaid, joinWith_cons]
    have hne : joinNonempty sep part ≠ [] := by
      rw [hjoined]
      exact List.append_ne_nil_of_left_ne_nil hfirst _
    have hflat : nonempty before ++ first :: others ++ nonempty behind =
        nonempty before ++ first :: (others ++ nonempty behind) := by simp
    rw [hcons _ hne, joinWith_append_cons, hjoined, hflat, joinWith_append_cons,
      List.flatMap_append]
    simp only [List.append_assoc]

theorem joinNonempty_flatten (sep : Text) (parts : List (List Text)) :
    joinNonempty sep (parts.map (joinNonempty sep)) = joinNonempty sep parts.flatten := by
  have hbehind : ∀ before : List Text,
      joinNonempty sep (before ++ parts.map (joinNonempty sep)) =
        joinNonempty sep (before ++ parts.flatten) := by
    induction parts with
    | nil => exact fun _ => rfl
    | cons part parts ih =>
      intro before
      rw [List.map_cons, joinNonempty_part, ih, List.flatten_cons, List.append_assoc]
  exact hbehind []

end Text

/-! ## Columns -/

/-- A column, or a text that may hold several. -/
inductive Column where
  | verbatim (text : Text)
  /-- `key AS name`. -/
  | renamed (key name : Text)
  /-- `key.column`. -/
  | qualified (key column : Text)
  deriving DecidableEq

/-- A column as it is written. -/
def Column.text : Column → Text
  | verbatim text => text.trim
  | renamed key name => key ++ " AS " ++ name
  | qualified key column => key ++ "." ++ column

/-- The columns that a key is listed with. -/
def ColumnTarget.leaves (key : Text) : ColumnTarget → List Column
  | renamed name => [.renamed key name]
  | columns names => names.map (.qualified key)

namespace Projection

mutual

/-- The columns from left to right. -/
def leaves : Projection → List Column
  | verbatim text => [.verbatim text]
  | list items => leavesOfAll items
  | keyed entries => entries.flatMap fun (key, target) => target.leaves key

/-- The columns of several projections. -/
def leavesOfAll : List Projection → List Column
  | [] => []
  | item :: rest => leaves item ++ leavesOfAll rest

end

/-- The columns that say something. -/
def said (p : Projection) : List Column := p.leaves.filter fun column => !column.text.isEmpty

theorem leavesOfAll_eq_flatMap (items : List Projection) :
    leavesOfAll items = items.flatMap leaves := by
  induction items with
  | nil => rfl
  | cons item rest ih => rw [leavesOfAll, ih, List.flatMap_cons]

theorem columnTexts_eq (key : Text) (target : ColumnTarget) :
    target.columnTexts key = (target.leaves key).map Column.text := by
  cases target with
  | renamed name => rfl
  | columns names => simp [ColumnTarget.columnTexts, ColumnTarget.leaves, Column.text, lit]

/-- A column of a key always says something. -/
theorem text_ne_nil {key : Text} {target : ColumnTarget} {column : Column}
    (h : column ∈ target.leaves key) : column.text ≠ [] := by
  cases target with
  | renamed name =>
    obtain rfl := List.mem_singleton.1 h
    simp [Column.text, lit]
  | columns names =>
    obtain ⟨name, -, rfl⟩ := List.mem_map.1 h
    simp [Column.text, lit]

theorem joinWith_columnTexts (key : Text) (target : ColumnTarget) :
    Text.joinWith ", " (target.columnTexts key) =
      Text.joinNonempty ", " ((target.leaves key).map Column.text) := by
  have hsaid : Text.nonempty ((target.leaves key).map Column.text) =
      (target.leaves key).map Column.text := by
    rw [Text.nonempty, List.filter_eq_self]
    intro text htext
    obtain ⟨column, hcolumn, rfl⟩ := List.mem_map.1 htext
    simpa using text_ne_nil hcolumn
  rw [Text.joinNonempty, hsaid, columnTexts_eq]

theorem columns_eq_leaves (p : Projection) :
    p.columns = Text.joinNonempty ", " (p.leaves.map Column.text) := by
  induction p using Projection.induction with
  | verbatim text =>
    rw [columns, leaves, List.map_singleton, Column.text, Text.joinNonempty]
    cases text.trim <;> simp [Text.nonempty]
  | list items ih =>
    rw [columns, columnsOfAll_eq_map, List.map_congr_left ih, leaves, leavesOfAll_eq_flatMap,
      List.map_flatMap, List.flatMap_def, ← Text.joinNonempty_flatten, List.map_map]
    rfl
  | keyed entries =>
    rw [columns, leaves, List.map_flatMap, List.flatMap_def, ← Text.joinNonempty_flatten,
      List.map_map]
    exact congrArg (Text.joinNonempty ", ")
      (List.map_congr_left fun entry _ => joinWith_columnTexts entry.1 entry.2)

/-- What is written are the columns that say something, joined once. -/
theorem columns_eq_said (p : Projection) :
    p.columns = Text.joinWith ", " (p.said.map Column.text) := by
  rw [columns_eq_leaves, Text.joinNonempty, Text.nonempty, List.filter_map, said]
  rfl

theorem text_ne_nil_of_mem_said {p : Projection} {column : Column} (h : column ∈ p.said) :
    column.text ≠ [] := by
  simpa using (List.mem_filter.1 h).2

theorem render_eq_said (p : Projection) :
    render (some p) =
      if p.said = [] then lit "*" else Text.joinWith ", " (p.said.map Column.text) := by
  rw [render, Option.map_some, Option.getD_some, columns_eq_said]
  cases hsaid : p.said with
  | nil => rfl
  | cons column others =>
    have hcolumn : column.text ≠ [] := text_ne_nil_of_mem_said (hsaid ▸ List.mem_cons_self)
    have hjoined : (Text.joinWith ", " ((column :: others).map Column.text)).isEmpty = false := by
      rw [List.isEmpty_eq_false_iff, List.map_cons, Text.joinWith_cons]
      exact List.append_ne_nil_of_left_ne_nil hcolumn _
    rw [hjoined, if_neg Bool.false_ne_true, if_neg (List.cons_ne_nil column others)]

/-- A star is written for nothing, or for a column that is a star. -/
theorem render_eq_star_iff (p : Projection) :
    render (some p) = lit "*" ↔ p.said = [] ∨ p.said.map Column.text = [lit "*"] := by
  rw [render_eq_said]
  match p.said with
  | [] => simp
  | [column] => simp [Text.joinWith]
  | column :: next :: others =>
    have hlong : Text.joinWith ", " ((column :: next :: others).map Column.text) ≠ lit "*" := by
      intro hstar
      have hcomma : (lit ", ").length = 2 := rfl
      have hone : (lit "*").length = 1 := rfl
      have hlength := congrArg List.length hstar
      rw [List.map_cons, List.map_cons, Text.joinWith_cons, List.flatMap_cons, List.length_append,
        List.length_append, List.length_append, hcomma, hone] at hlength
      omega
    rw [if_neg (List.cons_ne_nil _ _)]
    exact iff_of_false hlong (by simp)

/-! ## Regrouping -/

/-- The projection of one column. -/
def ofColumn : Column → Projection
  | .verbatim text => verbatim text
  | .renamed key name => keyed [(key, .renamed name)]
  | .qualified key column => keyed [(key, .columns [column])]

/-- Projections that differ in their grouping only. -/
inductive Regrouped : Projection → Projection → Prop
  | refl (p : Projection) : Regrouped p p
  | symm {p q : Projection} (h : Regrouped p q) : Regrouped q p
  | trans {p q r : Projection} (h : Regrouped p q) (h' : Regrouped q r) : Regrouped p r
  /-- Members of lists are regrouped on their own. -/
  | member {p q : Projection} (before behind : List Projection) (h : Regrouped p q) :
    Regrouped (list (before ++ p :: behind)) (list (before ++ q :: behind))
  /-- A list of one. -/
  | single (p : Projection) : Regrouped (list [p]) p
  /-- A list in a list. -/
  | nested (before items behind : List Projection) :
    Regrouped (list (before ++ list items :: behind)) (list (before ++ items ++ behind))
  /-- A blank text. -/
  | blank {text : Text} (h : text.blank = true) : Regrouped (verbatim text) (list [])
  /-- Keys with their targets. -/
  | entries (entries others : List (Text × ColumnTarget)) :
    Regrouped (keyed (entries ++ others)) (list [keyed entries, keyed others])
  | noEntries : Regrouped (keyed []) (list [])
  /-- Columns of one key. -/
  | columns (key : Text) (names others : List Text) :
    Regrouped (keyed [(key, .columns (names ++ others))])
      (list [keyed [(key, .columns names)], keyed [(key, .columns others)]])
  | noColumns (key : Text) : Regrouped (keyed [(key, .columns [])]) (list [])

theorem said_verbatim (text : Text) :
    (verbatim text).said = if text.blank then [] else [.verbatim text] := by
  rw [said, leaves, Text.blank]
  cases h : text.trim.isEmpty <;> simp [Column.text, h]

theorem said_list (items : List Projection) : (list items).said = items.flatMap said := by
  rw [said, leaves, leavesOfAll_eq_flatMap, List.filter_flatMap]
  rfl

theorem said_keyed (entries : List (Text × ColumnTarget)) :
    (keyed entries).said = entries.flatMap fun (key, target) => target.leaves key := by
  rw [said, leaves, List.filter_eq_self]
  intro column hcolumn
  obtain ⟨entry, -, hentry⟩ := List.mem_flatMap.1 hcolumn
  simpa using text_ne_nil hentry

/-- Regrouping keeps what is said. -/
theorem Regrouped.said_eq {p q : Projection} (h : p.Regrouped q) : p.said = q.said := by
  induction h with
  | refl p => rfl
  | symm _ ih => exact ih.symm
  | trans _ _ ih ih' => exact ih.trans ih'
  | member before behind _ ih => simp [said_list, ih]
  | single p => simp [said_list]
  | nested before items behind => simp [said_list]
  | blank h => simp [said_verbatim, said_list, h]
  | entries entries others => simp [said_list, said_keyed]
  | noEntries => simp [said_list, said_keyed]
  | columns key names others => simp [said_list, said_keyed, ColumnTarget.leaves]
  | noColumns key => simp [said_list, said_keyed, ColumnTarget.leaves]

/-- The members of a list are taken apart one by one. -/
theorem Regrouped.members {f : Projection → List Projection} (before : List Projection)
    {items : List Projection} (h : ∀ item ∈ items, item.Regrouped (list (f item))) :
    (list (before ++ items)).Regrouped (list (before ++ items.flatMap f)) := by
  induction items generalizing before with
  | nil => exact .refl _
  | cons item items ih =>
    rw [List.forall_mem_cons] at h
    have hrest := ih (before ++ f item) h.2
    rw [List.flatMap_cons, ← List.append_assoc]
    exact ((Regrouped.member before items h.1).trans (.nested before (f item) items)).trans hrest

/-- A projection whose parts can be taken apart into columns can be taken apart itself. -/
theorem Regrouped.gather {p : Projection} {items : List Projection}
    (hparts : p.Regrouped (list items))
    (h : ∀ item ∈ items, item.Regrouped (list (item.said.map ofColumn))) :
    p.Regrouped (list (p.said.map ofColumn)) := by
  have hsaid : p.said.map ofColumn = items.flatMap fun item => item.said.map ofColumn := by
    rw [hparts.said_eq, said_list, List.map_flatMap]
  rw [hsaid]
  exact hparts.trans (Regrouped.members [] h)

theorem regrouped_columns (key : Text) (names : List Text) :
    (keyed [(key, .columns names)]).Regrouped
      (list ((keyed [(key, .columns names)]).said.map ofColumn)) := by
  induction names with
  | nil =>
    rw [said_keyed]
    exact .noColumns key
  | cons name names ih =>
    have hone : (keyed [(key, .columns [name])]).Regrouped
        (list ((keyed [(key, .columns [name])]).said.map ofColumn)) := by
      rw [said_keyed]
      exact .symm (.single _)
    exact .gather (.columns key [name] names)
      (List.forall_mem_cons.2 ⟨hone, List.forall_mem_singleton.2 ih⟩)

theorem regrouped_keyed (entries : List (Text × ColumnTarget)) :
    (keyed entries).Regrouped (list ((keyed entries).said.map ofColumn)) := by
  induction entries with
  | nil => exact .noEntries
  | cons entry entries ih =>
    have hentry : (keyed [entry]).Regrouped (list ((keyed [entry]).said.map ofColumn)) := by
      obtain ⟨key, target⟩ := entry
      cases target with
      | renamed name =>
        rw [said_keyed]
        exact .symm (.single _)
      | columns names => exact regrouped_columns key names
    exact .gather (.entries [entry] entries)
      (List.forall_mem_cons.2 ⟨hentry, List.forall_mem_singleton.2 ih⟩)

/-- Every projection can be regrouped into one list of the columns that say something. -/
theorem regrouped_said (p : Projection) : p.Regrouped (list (p.said.map ofColumn)) := by
  induction p using Projection.induction with
  | verbatim text =>
    rw [said_verbatim]
    cases hblank : text.blank with
    | true => exact .blank hblank
    | false => exact .symm (.single _)
  | list items ih => exact .gather (.refl _) ih
  | keyed entries => exact regrouped_keyed entries

/-- Regroupings reach exactly the projections that say the same. -/
theorem regrouped_iff {p q : Projection} : p.Regrouped q ↔ p.said = q.said := by
  refine ⟨Regrouped.said_eq, fun h => ?_⟩
  have hq := regrouped_said q
  rw [← h] at hq
  exact (regrouped_said p).trans hq.symm

/-- What is written are the columns that say something, from left to right with commas between
however they are grouped, and a star for none of them or for one that is a star.  So projections
of the same columns are written the same, and those are the ones that differ in their grouping and
in parts that say nothing. -/
theorem grouping_unobservable (p : Projection) :
    (render (some p) =
      if p.said = [] then lit "*" else Text.joinWith ", " (p.said.map Column.text)) ∧
    (render (some p) = lit "*" ↔ p.said = [] ∨ p.said.map Column.text = [lit "*"]) ∧
    ∀ q : Projection, (p.Regrouped q ↔ p.said = q.said) ∧
      (p.said = q.said → render (some p) = render (some q)) := by
  refine ⟨render_eq_said p, render_eq_star_iff p, fun q => ⟨regrouped_iff, fun h => ?_⟩⟩
  rw [render_eq_said, render_eq_said, h]

/-- Lists in lists, keys with and without columns, and a blank text. -/
theorem grouping_unobservable_nested :
    (list [verbatim " ", keyed [], list [verbatim "a", list [keyed [("t", .columns ["b", "c"]),
        ("u", .columns [])]]], keyed [("d", .renamed "e")]]).said =
      (list [verbatim "a", keyed [("t", .columns ["b"])], keyed [("t", .columns ["c"]),
        ("d", .renamed "e")]]).said ∧
    render (some (list [verbatim " ", keyed [], list [verbatim "a", list [keyed [
        ("t", .columns ["b", "c"]), ("u", .columns [])]]], keyed [("d", .renamed "e")]])) =
      render (some (list [verbatim "a", keyed [("t", .columns ["b"])], keyed [
        ("t", .columns ["c"]), ("d", .renamed "e")]])) ∧
    render (some (list [verbatim "a", keyed [("t", .columns ["b"])], keyed [
        ("t", .columns ["c"]), ("d", .renamed "e")]])) = lit "a, t.b, t.c, d AS e" :=
  ⟨by decide +kernel, ((grouping_unobservable _).2.2 _).2 (by decide +kernel), by decide +kernel⟩

end Projection

end SqlCompose
