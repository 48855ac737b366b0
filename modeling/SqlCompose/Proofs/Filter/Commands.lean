import SqlCompose.Proofs.Filter.Leaves
import SqlCompose.Proofs.Writing

/-!
# When a filter disappears

A `DELETE` or `UPDATE` without a `WHERE` is about every row of its table, so
it matters when a condition that was given is written as nothing.

* `Condition.core` is what is left of a leaf among others, and
  `Condition.core_isInfix_render` says that it stays, in whatever lists and
  disjunctions the leaf stands.
* `Text.spaced_eq_spaced_nil_iff` says that a clause that is not empty is seen
  in a statement.

Main result: `filter_disappears_iff`.
-/

namespace SqlCompose

/-! ## What is left of a leaf -/

namespace Text

variable {t u : Text}

theorem edges_of_trim_eq (h : t.trim = t) :
    (∀ c ∈ t.head?, isBlank c = false) ∧ ∀ c ∈ t.getLast?, isBlank c = false := by
  rw [← h]
  exact ⟨head?_dropEnds, getLast?_dropEnds⟩

/-- A text that is trimmed stays when a text that it is a part of is trimmed. -/
theorem isInfix_trim (ht : t.trim = t) (h : t <:+: u) : t <:+: u.trim :=
  isInfix_dropEnds h (edges_of_trim_eq ht).1 (edges_of_trim_eq ht).2

theorem isInfix_trimEnd (ht : t.trim = t) (h : t <:+: u) : t <:+: u.trimEnd :=
  isInfix_dropWhile_reverse h (edges_of_trim_eq ht).2

theorem trim_isInfix (t : Text) : t.trim <:+: t := dropEnds_isInfix isBlank t

theorem trim_space_cons (t : Text) : trim (' ' :: t) = t.trim := dropEnds_cons rfl t

end Text

namespace Condition

variable {t u : Text}

/-- What stays of an element: all but a mark at its front and outer blanks.  The bare word of
the mark is taken for a mark itself when something follows it. -/
def core (t : Text) : Text := if t = lit "OR" then [] else (withoutMark t).trim

theorem trim_core (t : Text) : (core t).trim = core t := by
  unfold core
  split
  · rfl
  · exact Text.trim_trim _

theorem withoutMark_isSuffix (t : Text) : withoutMark t <:+ t := by
  unfold withoutMark
  cases hprefix : mark.isPrefixOf? t with
  | none => exact List.suffix_refl t
  | some r =>
    rw [← List.isPrefixOf?_eq_some_iff_append_eq.1 hprefix]
    exact List.suffix_append mark r

theorem withoutMark_mark_append (t : Text) : withoutMark (mark ++ t) = t := by
  rw [withoutMark, List.isPrefixOf?_eq_some_iff_append_eq.2 rfl, Option.getD_some]

theorem core_isInfix_withoutMark (t : Text) : core t <:+: withoutMark t := by
  unfold core
  split
  · exact List.nil_infix
  · exact Text.trim_isInfix _

/-- Nothing of a leaf stays only if it is blank or the bare word of the mark. -/
theorem core_eq_nil {leaf : Leaf} (hnames : ∀ name ∈ leaf.names, IsUnmarkedName name)
    (h : core leaf.text = []) : leaf.text.blank = true ∨ leaf.text = lit "OR" := by
  unfold core at h
  split at h
  · exact .inr ‹_›
  refine .inl ?_
  rw [Text.blank_iff_trim_eq_nil]
  by_cases hsql : ∃ text, leaf = .sql text
  · obtain ⟨text, rfl⟩ := hsql
    cases hprefix : mark.isPrefixOf? text.trim with
    | none =>
      rw [Leaf.text, withoutMark, hprefix, Option.getD_none] at h
      exact h
    | some r =>
      -- SQL is trimmed, so there are not only blanks behind a mark
      rw [Leaf.text, withoutMark, hprefix, Option.getD_some, ← Text.blank_iff_trim_eq_nil] at h
      have htrim := text.trim_trim
      rw [← List.isPrefixOf?_eq_some_iff_append_eq.1 hprefix, trim_mark_append_of_blank h] at htrim
      simp [mark, lit] at htrim
  · rw [withoutMark_of_not_marked (Leaf.not_marked hnames (not_exists.1 hsql))] at h
    exact h

theorem core_isInfix_append (t u : Text) : core t <:+: withoutMark (t ++ ' ' :: u) := by
  by_cases hne : t = []
  · rw [hne]
    exact List.nil_infix
  by_cases hword : t = lit "OR"
  · rw [hword]
    exact List.nil_infix
  · rw [withoutMark_append_space hne hword]
    exact (core_isInfix_withoutMark t).trans (List.prefix_append _ _).isInfix

theorem core_isInfix (t : Text) : core t <:+: t :=
  (core_isInfix_withoutMark t).trans (withoutMark_isSuffix t).isInfix

/-- A part of an element is a part of what stands behind others. -/
theorem isInfix_chain {unmarked part : Text} {parts : List Text} (h : t <:+: part)
    (hmem : part ∈ parts) : t <:+: chain unmarked parts := by
  obtain ⟨before, behind, rfl⟩ := List.append_of_mem hmem
  rw [chain, List.flatMap_append, List.flatMap_cons]
  exact h.trans ⟨chain unmarked before ++ joiner part unmarked, chain unmarked behind,
    by simp [chain]⟩

/-- What stands behind a text and a space is not taken away with a mark. -/
theorem isSuffix_withoutMark (t u : Text) : u <:+ withoutMark (t ++ ' ' :: u) := by
  by_cases hne : t = []
  · rw [hne]
    exact List.suffix_cons ' ' u
  by_cases hword : t = lit "OR"
  · rw [hword]
    exact List.suffix_refl u
  · rw [withoutMark_append_space hne hword]
    exact (List.suffix_cons ' ' u).trans (List.suffix_append _ _)

/-- What stays of an element stays among others. -/
theorem core_isInfix_conjunction {part : Text} {parts : List Text} (hmem : part ∈ parts) :
    core part <:+: conjunction parts := by
  cases parts with
  | nil => exact absurd hmem List.not_mem_nil
  | cons first rest =>
    have hbehind : part ∈ rest → core part <:+: chain " AND " rest :=
      isInfix_chain (core_isInfix part)
    have hspace : chain " AND " rest = [] ∨ ∃ r, chain " AND " rest = ' ' :: r :=
      chain_eq_nil_or (lit "AND ") rest
    rw [conjunction_cons]
    generalize chain " AND " rest = tail at hbehind hspace ⊢
    rcases List.mem_cons.1 hmem with rfl | hrest
    · rcases hspace with rfl | ⟨r, rfl⟩
      · rw [List.append_nil]
        exact core_isInfix_withoutMark part
      · exact core_isInfix_append part r
    · have hcore := hbehind hrest
      rcases hspace with rfl | ⟨r, rfl⟩
      · rw [List.eq_nil_of_infix_nil hcore]
        exact List.nil_infix
      · -- the space in front is not a part of what is trimmed
        have htrim := Text.isInfix_trim (trim_core part) hcore
        rw [Text.trim_space_cons] at htrim
        exact (htrim.trans (Text.trim_isInfix r)).trans (isSuffix_withoutMark first r).isInfix

theorem core_mark_append (hne : t.blank = false) :
    core (Text.trim (mark ++ t)) = t.trimEnd.trim := by
  rw [trim_mark_append hne, core, if_neg (by simp [mark, lit]), withoutMark_mark_append]

theorem core_bracketed (body : Text) : core (Text.bracketed body) = Text.bracketed body := by
  have hmark : withoutMark (Text.bracketed body) = Text.bracketed body := rfl
  rw [core, if_neg (by simp [Text.bracketed, lit]), hmark, trim_bracketed]

/-- What is left of an arm on its own, or of several between brackets, has all of each arm but
its outer blanks. -/
theorem isInfix_core_disjunction {arm : Text} {arms : List Text} (ht : t.trim = t)
    (h : t <:+: arm) (hmem : arm ∈ arms) : t <:+: core (disjunction arms).trim := by
  match arms, hmem with
  | [arm'], hmem =>
    obtain rfl := List.mem_singleton.1 hmem
    cases hblank : arm.blank with
    | true =>
      have hnil := Text.isInfix_trim ht h
      rw [Text.blank_iff_trim_eq_nil.1 hblank] at hnil
      rw [List.eq_nil_of_infix_nil hnil]
      exact List.nil_infix
    | false =>
      rw [disjunction, core_mark_append hblank]
      exact Text.isInfix_trim ht (Text.isInfix_trimEnd ht h)
  | first :: second :: rest, hmem =>
    rw [disjunction, trim_bracketed, core_bracketed]
    · have hbody : t <:+: first ++ chain " OR " (second :: rest) := by
        rcases List.mem_cons.1 hmem with rfl | hbehind
        · exact h.trans (List.prefix_append _ _).isInfix
        · exact (isInfix_chain h hbehind).trans (List.suffix_append _ _).isInfix
      exact hbody.trans ⟨['('], [')'], by simp [Text.bracketed]⟩
    · simp

/-! ## Leaves among others -/

/-- What stays of a leaf is a part of what stays of an element. -/
theorem exists_part_of_mem_leaves {c : Condition} {leaf : Leaf} (hmem : leaf ∈ c.leaves)
    (hne : core leaf.text ≠ []) : ∃ part ∈ c.parts, core leaf.text <:+: core part := by
  have hwritten : leaf.text ≠ [] := by
    intro hnil
    rw [hnil] at hne
    exact hne rfl
  induction c using Condition.induction with
  | sql text =>
    obtain rfl := List.mem_singleton.1 hmem
    exact ⟨text.trim, mem_element_iff.2 ⟨rfl, hwritten⟩, List.infix_refl _⟩
  | criterion c =>
    obtain rfl := List.mem_singleton.1 hmem
    exact ⟨c.render none, mem_element_iff.2 ⟨rfl, hwritten⟩, List.infix_refl _⟩
  | fields entries =>
    obtain ⟨⟨field, operand⟩, hentry, rfl⟩ := List.mem_map.1 hmem
    exact ⟨operand.render field,
      Text.mem_nonempty.2 ⟨List.mem_map.2 ⟨(field, operand), hentry, rfl⟩, hwritten⟩,
      List.infix_refl _⟩
  | all items ih =>
    rw [leaves, leavesOfAll_eq_flatMap] at hmem
    obtain ⟨item, hitem, hleaf⟩ := List.mem_flatMap.1 hmem
    obtain ⟨part, hpart, hcore⟩ := ih item hitem hleaf
    rw [parts, partsOfAll_eq_flatMap]
    exact ⟨part, List.mem_flatMap.2 ⟨item, hitem, hpart⟩, hcore⟩
  | any arms ih =>
    rw [leaves, leavesOfAll_eq_flatMap] at hmem
    obtain ⟨arm, harm, hleaf⟩ := List.mem_flatMap.1 hmem
    obtain ⟨part, hpart, hcore⟩ := ih arm harm hleaf
    have hrender : core leaf.text <:+: arm.render :=
      hcore.trans (core_isInfix_conjunction hpart)
    have hsaid : arm.render ∈ said arms := by
      refine Text.mem_nonempty.2 ⟨List.mem_map_of_mem harm, fun hnil => hne ?_⟩
      rw [hnil] at hrender
      exact List.eq_nil_of_infix_nil hrender
    have hkept := isInfix_core_disjunction (trim_core _) hrender hsaid
    refine ⟨(disjunction (said arms)).trim, ?_, hkept⟩
    rw [← disjunctionText_eq, parts, disjunctionText, mem_element_iff]
    refine ⟨rfl, fun hnil => hne ?_⟩
    rw [← disjunctionText, disjunctionText_eq] at hnil
    rw [hnil] at hkept
    exact List.eq_nil_of_infix_nil hkept

/-- What stays of a leaf is written, whatever it stands among. -/
theorem core_isInfix_render {c : Condition} {leaf : Leaf} (hmem : leaf ∈ c.leaves) :
    core leaf.text <:+: c.render := by
  by_cases hne : core leaf.text = []
  · rw [hne]
    exact List.nil_infix
  · obtain ⟨part, hpart, hcore⟩ := exists_part_of_mem_leaves hmem hne
    exact hcore.trans (core_isInfix_conjunction hpart)

end Condition

/-! ## Commands -/

/-- Among pieces with spaces between, only a piece that is empty is not seen. -/
theorem Text.spaced_eq_spaced_nil_iff {front behind : List Text} {piece : Text} :
    spaced (front ++ piece :: behind) = spaced (front ++ [] :: behind) ↔ piece = [] := by
  refine ⟨fun h => ?_, fun h => by rw [h]⟩
  by_contra hne
  induction front with
  | nil =>
    rw [List.nil_append, List.nil_append, spaced_nil_cons, spaced_cons hne] at h
    have hlength := congrArg List.length h
    split at hlength
    · rename_i hnil
      rw [hnil] at hlength
      exact hne (List.eq_nil_of_length_eq_zero hlength)
    · rw [List.length_append, List.length_cons] at hlength
      omega
  | cons first front ih =>
    by_cases hfirst : first = []
    · rw [hfirst] at h
      exact ih h
    have hwritten : spaced (front ++ piece :: behind) ≠ [] := spaced_ne_nil (by simp) hne
    rw [List.cons_append, List.cons_append, spaced_cons hfirst, spaced_cons hfirst,
      if_neg hwritten] at h
    split at h
    · simp at h
    · exact ih (by simpa using h)

namespace Condition

theorem whereClause_eq_nil_iff {c : Condition} : whereClause (some c) = [] ↔ c.render = [] := by
  unfold whereClause clause Text.clause
  split
  · rename_i hempty
    exact iff_of_true rfl (List.isEmpty_iff.1 hempty)
  · rename_i hne
    refine iff_of_false (by simp) fun hnil => hne ?_
    rw [Option.map_some, Option.getD_some, hnil]
    rfl

theorem whereClause_of_ne_nil {c : Condition} (h : c.render ≠ []) :
    whereClause (some c) = "WHERE" ++ ' ' :: c.render := by
  unfold whereClause clause Text.clause
  rw [Option.map_some, Option.getD_some, if_neg (by simpa using h)]

end Condition

theorem DeleteCommand.compile_of_table {d : DeleteCommand} {table : Text}
    (h : TableRef.renderRequired d.table = .ok table) :
    d.compile = .ok (Text.spaced ["DELETE FROM", table, Condition.whereClause d.filter,
      OrderBy.clause d.orderBy, RowLimit.clause d.limit]) := by
  rw [compile, h]
  rfl

theorem UpdateCommand.compile_of_table {u : UpdateCommand} {table : Text}
    (h : TableRef.renderRequired u.table = .ok table) :
    u.compile = .ok (Text.spaced ["UPDATE", table, "SET",
      (u.assignments.map Assignments.render).getD [], Condition.whereClause u.filter,
      OrderBy.clause u.orderBy, RowLimit.clause u.limit]) := by
  rw [compile, h]
  rfl

/-- A condition that is given to a `DELETE` or an `UPDATE` disappears, and leaves a command
about every row of the table, exactly if all of its leaves are silent.  An operand by field
and a test for rows of a subquery never are, and what a leaf says stays among others. -/
theorem filter_disappears_iff {c : Condition} (hnames : c.NamesUnmarked) :
    (∀ (d : DeleteCommand) (table : Text), d.filter = some c →
      TableRef.renderRequired d.table = .ok table →
      (d.compile = DeleteCommand.compile { d with filter := none } ↔ c.Silent) ∧
      (¬c.Silent → d.compile = .ok (Text.spaced ["DELETE FROM", table,
        "WHERE" ++ ' ' :: c.render, OrderBy.clause d.orderBy, RowLimit.clause d.limit]))) ∧
    (∀ (u : UpdateCommand) (table : Text), u.filter = some c →
      TableRef.renderRequired u.table = .ok table →
      (u.compile = UpdateCommand.compile { u with filter := none } ↔ c.Silent) ∧
      (¬c.Silent → u.compile = .ok (Text.spaced ["UPDATE", table, "SET",
        (u.assignments.map Assignments.render).getD [], "WHERE" ++ ' ' :: c.render,
        OrderBy.clause u.orderBy, RowLimit.clause u.limit]))) ∧
    ∀ leaf ∈ c.leaves, (leaf.AlwaysSays → ¬leaf.Silent) ∧
      (¬leaf.Silent → c.render ≠ [] ∧ Condition.core leaf.text <:+: c.render ∧
        (Condition.core leaf.text = [] → leaf.text.blank = true ∨ leaf.text = lit "OR")) := by
  have hrender : ¬c.Silent → c.render ≠ [] := fun hsays hnil =>
    hsays ((Condition.render_eq_nil_iff hnames).1 hnil)
  -- the clause stands between what is in front of it and what is behind it
  have hseen : ∀ front behind : List Text,
      Text.spaced (front ++ Condition.whereClause (some c) :: behind) =
        Text.spaced (front ++ Condition.whereClause none :: behind) ↔ c.Silent := fun _ _ =>
    Text.spaced_eq_spaced_nil_iff.trans
      (Condition.whereClause_eq_nil_iff.trans (Condition.render_eq_nil_iff hnames))
  refine ⟨?_, ?_, ?_⟩
  · intro d table hfilter htable
    have hcompile := DeleteCommand.compile_of_table htable
    have hbare := @DeleteCommand.compile_of_table { d with filter := none } table htable
    rw [hfilter] at hcompile
    refine ⟨?_, fun hsays => ?_⟩
    · rw [hcompile, hbare, Except.ok.injEq]
      exact hseen ["DELETE FROM", table] _
    · rw [hcompile, Condition.whereClause_of_ne_nil (hrender hsays)]
  · intro u table hfilter htable
    have hcompile := UpdateCommand.compile_of_table htable
    have hbare := @UpdateCommand.compile_of_table { u with filter := none } table htable
    rw [hfilter] at hcompile
    refine ⟨?_, fun hsays => ?_⟩
    · rw [hcompile, hbare, Except.ok.injEq]
      exact hseen ["UPDATE", table, "SET", (u.assignments.map Assignments.render).getD []] _
    · rw [hcompile, Condition.whereClause_of_ne_nil (hrender hsays)]
  · intro leaf hleaf
    refine ⟨Leaf.AlwaysSays.not_silent, fun hsays => ⟨?_, Condition.core_isInfix_render hleaf,
      Condition.core_eq_nil (hnames leaf hleaf)⟩⟩
    exact hrender fun hsilent => hsays (hsilent leaf hleaf)

/-- Members of every kind that say nothing: a blank text, a test without a field in a
disjunction beside one that is listed by a blank field, and no fields at all. -/
def onlySilent : Condition :=
  .all [.sql "\u3000", .any [.criterion (.unbound false (.like (.text "%"))),
    .fields [(" ", .criterion (.unbound true .isNull))]], .fields []]

/-- A disjunction of which one arm says something. -/
def oneSays : Condition := .any [onlySilent, .fields [("state", .value (.text "new"))]]

theorem filter_disappears_iff_oneSays :
    DeleteCommand.compile { table := some (.named "users"), filter := some onlySilent } =
      DeleteCommand.compile { table := some (.named "users") } ∧
    UpdateCommand.compile
        { table := some (.named "users"), assignments := some (.verbatim "n = 1"),
          filter := some oneSays } =
      .ok "UPDATE users SET n = 1 WHERE state = 'new'" := by
  have hsilent : onlySilent.NamesUnmarked ∧ onlySilent.Silent := by decide +kernel
  have hsays : oneSays.NamesUnmarked ∧ ¬oneSays.Silent := by decide +kernel
  obtain ⟨hdelete, -⟩ := filter_disappears_iff hsilent.1
  obtain ⟨-, hupdate, -⟩ := filter_disappears_iff hsays.1
  constructor
  · exact (hdelete { table := some (.named "users"), filter := some onlySilent } "users" rfl
      rfl).1.2 hsilent.2
  · rw [(hupdate _ "users" rfl rfl).2 hsays.2]
    decide +kernel

end SqlCompose
