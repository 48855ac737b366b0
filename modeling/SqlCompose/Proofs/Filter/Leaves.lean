import SqlCompose.Proofs.Algebra.Narrowing

/-!
# The leaves of a condition

A condition is a tree, and all that it can say stands at its leaves: verbatim
SQL, a criterion on its own, or a field with its operand.  This module says
which leaves are silent, and that nothing but the leaves decides whether a
condition is written at all.

* `Condition.induction` is the induction on conditions: a list or a
  disjunction has a property if its members do.
* `Leaf.text_eq_nil_iff` is about one leaf.
* A text that is not empty gets lost in one way only: as a bare mark at the
  front.  `Leaf.text_ne_mark` says that no leaf is written so, unless its field
  is named like the mark (`IsUnmarkedName`).
* `Condition.parts_eq_nil_iff` and `Condition.render_eq_nil_iff` go from the
  leaves to the elements, and from these to the whole text.
-/

namespace SqlCompose

/-! ## Induction -/

namespace Condition

/-- A property of the leaves that lists and disjunctions inherit from their members is a
property of all conditions. -/
@[elab_as_elim]
theorem induction {motive : Condition → Prop} (sql : ∀ text, motive (sql text))
    (criterion : ∀ c, motive (criterion c))
    (all : ∀ items, (∀ item ∈ items, motive item) → motive (all items))
    (any : ∀ arms, (∀ arm ∈ arms, motive arm) → motive (any arms))
    (fields : ∀ entries, motive (fields entries)) : ∀ c, motive c :=
  @Condition.rec motive (fun items => ∀ item ∈ items, motive item) sql criterion all any fields
    (fun _ h => absurd h List.not_mem_nil)
    (fun _ _ hfirst hrest => List.forall_mem_cons.2 ⟨hfirst, hrest⟩)

end Condition

/-! ## Leaves -/

/-- An end of a condition. -/
inductive Leaf where
  /-- Verbatim SQL. -/
  | sql (text : Text)
  /-- A criterion that nothing around it offers a field. -/
  | criterion (c : Criterion)
  /-- A field with its operand. -/
  | entry (field : Text) (operand : Operand)

namespace Leaf

/-- What a leaf is written as. -/
def text : Leaf → Text
  | sql text => text.trim
  | criterion c => c.render none
  | entry field operand => operand.render field

/-- The names of fields in a leaf: the one that it is listed by, and the one that a criterion
is bound to. -/
def names : Leaf → List Text
  | sql _ => []
  | criterion c => c.field.toList
  | entry field (.value _) => [field]
  | entry field (.criterion c) => field :: c.field.toList

/-- Whether a leaf says nothing: blank SQL, or a test of a field without a field.  A criterion
on its own has no field unless it is bound, one that is listed by a field has this one. -/
def Silent : Leaf → Prop
  | sql text => text.blank = true
  | criterion c => c.predicate.test.needsField = true ∧
      (c.field = none ∨ ∃ field ∈ c.field, field.blank = true)
  | entry field (.criterion c) => c.predicate.test.needsField = true ∧
      (c.field.getD field).blank = true
  | entry _ (.value _) => False

instance : DecidablePred Silent
  | sql text => inferInstanceAs (Decidable (text.blank = true))
  | criterion c => inferInstanceAs (Decidable (c.predicate.test.needsField = true ∧
      (c.field = none ∨ ∃ field ∈ c.field, field.blank = true)))
  | entry field (.criterion c) => inferInstanceAs (Decidable
      (c.predicate.test.needsField = true ∧ (c.field.getD field).blank = true))
  | entry _ (.value _) => inferInstanceAs (Decidable False)

/-- Whether a leaf always says something: an operand by field, or a test for rows of a
subquery. -/
def AlwaysSays : Leaf → Prop
  | entry _ (.value _) => True
  | criterion c | entry _ (.criterion c) => c.predicate.test.needsField = false
  | sql _ => False

theorem AlwaysSays.not_silent {leaf : Leaf} (h : leaf.AlwaysSays) : ¬leaf.Silent := by
  intro hsilent
  cases leaf with
  | sql text => exact h
  | criterion c =>
    obtain ⟨hneeds, -⟩ := hsilent
    exact absurd (hneeds.symm.trans h) (by decide)
  | entry field operand =>
    cases operand with
    | value v => exact hsilent
    | criterion c =>
      obtain ⟨hneeds, -⟩ := hsilent
      exact absurd (hneeds.symm.trans h) (by decide)

end Leaf

/-- Whether a name, apart from outer blanks, is not taken for the mark of an alternative. -/
def IsUnmarkedName (name : Text) : Prop :=
  name.trim ≠ lit "OR" ∧ Condition.marked name.trim = false

instance : DecidablePred IsUnmarkedName :=
  fun name => inferInstanceAs (Decidable (name.trim ≠ lit "OR" ∧
    Condition.marked name.trim = false))

namespace Condition

mutual

/-- The leaves of a condition, in order. -/
def leaves : Condition → List Leaf
  | sql text => [.sql text]
  | criterion c => [.criterion c]
  | all items => leavesOfAll items
  | any arms => leavesOfAll arms
  | fields entries => entries.map fun (field, operand) => .entry field operand

/-- The leaves of several conditions, in order. -/
def leavesOfAll : List Condition → List Leaf
  | [] => []
  | item :: rest => leaves item ++ leavesOfAll rest

end

theorem leavesOfAll_eq_flatMap (items : List Condition) :
    leavesOfAll items = items.flatMap leaves := by
  induction items with
  | nil => rfl
  | cons item rest ih => rw [leavesOfAll, ih, List.flatMap_cons]

/-- What holds of all leaves of a list, or of a disjunction, holds of those of its members. -/
theorem forall_mem_leaves_all {p : Leaf → Prop} {items : List Condition} :
    (∀ leaf ∈ (all items).leaves, p leaf) ↔ ∀ item ∈ items, ∀ leaf ∈ item.leaves, p leaf := by
  rw [leaves, leavesOfAll_eq_flatMap]
  exact List.forall_mem_flatMap

/-- Whether all leaves of a condition are silent. -/
def Silent (c : Condition) : Prop := ∀ leaf ∈ c.leaves, leaf.Silent

instance : DecidablePred Silent :=
  fun c => inferInstanceAs (Decidable (∀ leaf ∈ c.leaves, leaf.Silent))

/-- Whether no name in a condition is taken for the mark of an alternative. -/
def NamesUnmarked (c : Condition) : Prop :=
  ∀ leaf ∈ c.leaves, ∀ name ∈ leaf.names, IsUnmarkedName name

instance : DecidablePred NamesUnmarked :=
  fun c => inferInstanceAs (Decidable (∀ leaf ∈ c.leaves, ∀ name ∈ leaf.names, IsUnmarkedName name))

end Condition

/-! ## Blanks and marks -/

theorem Text.trim_trim (t : Text) : t.trim.trim = t.trim := dropEnds_dropEnds isBlank t

theorem Text.trim_ne_mark (t : Text) : t.trim ≠ Condition.mark := by
  intro h
  have htwice := t.trim_trim
  rw [h] at htwice
  exact absurd htwice (by decide)

theorem Text.blank_iff_trim_eq_nil {t : Text} : t.blank = true ↔ t.trim = [] := by
  rw [blank, List.isEmpty_iff]

theorem Text.nonempty_eq_nil_iff {texts : List Text} :
    nonempty texts = [] ↔ ∀ t ∈ texts, t = [] := by
  simp [nonempty]

namespace Condition

/-- Only the bare word of the mark becomes a mark by the space that follows it. -/
theorem append_space_eq_mark {t r : Text} (h : t ++ ' ' :: r = mark) : t = lit "OR" ∧ r = [] := by
  rw [show mark = ['O', 'R', ' '] from rfl] at h
  match t, h with
  | [], h => simp at h
  | [c], h => simp at h
  | [c, d], h =>
    simp only [List.cons_append, List.nil_append, List.cons.injEq, true_and] at h
    obtain ⟨rfl, rfl, rfl⟩ := h
    exact ⟨rfl, rfl⟩
  | c :: d :: e :: t, h => simp at h

/-- A text without the mark at its front. -/
def withoutMark (t : Text) : Text := (mark.isPrefixOf? t).getD t

theorem conjunction_cons (first : Text) (rest : List Text) :
    conjunction (first :: rest) = withoutMark (first ++ chain " AND " rest) := rfl

/-- A text that is more than a mark keeps something. -/
theorem withoutMark_ne_nil {t : Text} (hne : t ≠ []) (hmark : t ≠ mark) : withoutMark t ≠ [] := by
  unfold withoutMark
  cases hprefix : mark.isPrefixOf? t with
  | none => exact hne
  | some r =>
    intro hnil
    rw [Option.getD_some] at hnil
    rw [hnil] at hprefix
    apply hmark
    rw [← List.isPrefixOf?_eq_some_iff_append_eq.1 hprefix, List.append_nil]

theorem withoutMark_append_space {t : Text} (hne : t ≠ []) (hword : t ≠ lit "OR") (u : Text) :
    withoutMark (t ++ ' ' :: u) = withoutMark t ++ ' ' :: u := by
  unfold withoutMark
  rw [isPrefixOf?_mark_append hne hword]
  cases mark.isPrefixOf? t <;> rfl

/-- Whether a text is marked is settled in its first word. -/
theorem marked_append_space {t : Text} (hword : t ≠ lit "OR") (h : marked t = false) (u : Text) :
    marked (t ++ ' ' :: u) = false := by
  by_cases hne : t = []
  · rw [hne]
    rfl
  · rw [marked, ← List.isSome_isPrefixOf?_eq_isPrefixOf] at h ⊢
    rw [isPrefixOf?_mark_append hne hword, Option.isSome_map]
    exact h

theorem withoutMark_of_not_marked {t : Text} (h : marked t = false) : withoutMark t = t := by
  rw [marked, ← List.isSome_isPrefixOf?_eq_isPrefixOf, Option.isSome_eq_false_iff,
    Option.isNone_iff_eq_none] at h
  rw [withoutMark, h, Option.getD_none]

/-- A mark with nothing but blanks behind it is trimmed to its bare word. -/
theorem trim_mark_append_of_blank {t : Text} (h : t.blank = true) :
    Text.trim (mark ++ t) = lit "OR" := by
  have hback : (' ' :: t).reverse.dropWhile isBlank = [] := by
    rw [Text.dropWhile_eq_nil_iff_all, List.all_reverse, List.all_cons, (Text.blank_iff t).1 h]
    rfl
  have hends := dropEnds_append_cons (p := isBlank) (x := 'R') rfl ['O'] (' ' :: t)
  rw [hback] at hends
  exact hends

end Condition

/-- A name that is not taken for a mark does not become one by what stands behind it. -/
theorem IsUnmarkedName.not_marked {name : Text} (h : IsUnmarkedName name) (u : Text) :
    Condition.marked (name ++ ' ' :: u) = false := by
  refine Condition.marked_append_space ?_ ?_ u
  · rintro rfl
    exact h.1 rfl
  · rw [Bool.eq_false_iff]
    intro hmarked
    obtain ⟨r, rfl⟩ := List.isPrefixOf_iff_prefix.1 hmarked
    cases hblank : Text.blank r with
    | true => exact h.1 (Condition.trim_mark_append_of_blank hblank)
    | false =>
      have htrim := h.2
      rw [trim_mark_append hblank, Bool.eq_false_iff] at htrim
      exact htrim (List.isPrefixOf_iff_prefix.2 (List.prefix_append _ _))

/-! ## One leaf -/

namespace Predicate

theorem render_ne_nil (p : Predicate) (field : Text) : p.render field ≠ [] := by
  unfold render
  cases p.test <;> simp [lit]

/-- What is asked of a field begins with the field, unless it is negated in front. -/
theorem render_not_marked (p : Predicate) {field : Text} (hword : field ≠ lit "OR")
    (h : Condition.marked field = false) : Condition.marked (p.render field) = false := by
  obtain ⟨negated, test⟩ := p
  have hfield := Condition.marked_append_space hword h
  cases test with
  | compare op v =>
    cases negated with
    | true => rfl
    | false => simpa [render, notWord] using hfield (op ++ ' ' :: v.quote)
  | hasRows sql => cases negated <;> rfl
  | like v => simpa [render] using hfield (notWord negated ++ ("LIKE " ++ v.quote))
  | among v => simpa [render] using hfield (notWord negated ++ ("IN (" ++ v.quote ++ ")"))
  | isNull => simpa [render, lit] using hfield ("IS " ++ (notWord negated ++ "NULL"))
  | between v w =>
    simpa [render] using hfield (notWord negated ++ ("BETWEEN " ++ v.quote ++ " AND " ++ w.quote))

end Predicate

namespace Criterion

variable {c : Criterion} {context : Option Text}

/-- A test of a field needs one that says something, and is about this field without its outer
blanks. -/
theorem render_of_field {field : Text} (hneeds : c.predicate.test.needsField = true)
    (h : c.field.or context = some field) :
    c.render context = if field.blank then [] else c.predicate.render field.trim := by
  rw [render, if_pos hneeds, h, Option.map_some, Text.blank]
  cases field.trim <;> rfl

theorem render_of_no_field (hneeds : c.predicate.test.needsField = true)
    (h : c.field.or context = none) : c.render context = [] := by
  rw [render, if_pos hneeds, h, Option.map_none]

/-- A criterion is not written exactly if it needs a field and none that says something is
known. -/
theorem render_eq_nil_iff :
    c.render context = [] ↔
      c.predicate.test.needsField = true ∧ ∀ field ∈ c.field.or context, field.blank = true := by
  by_cases hneeds : c.predicate.test.needsField = true
  · cases hfield : c.field.or context with
    | none => simp [render_of_no_field hneeds hfield, hneeds]
    | some field =>
      rw [render_of_field hneeds hfield]
      split
      · rename_i hblank
        simp [hneeds, hblank]
      · rename_i hblank
        simp [hneeds, hblank, c.predicate.render_ne_nil]
  · rw [render, if_neg hneeds]
    exact iff_of_false (c.predicate.render_ne_nil _) fun h => hneeds h.1

theorem render_not_marked (h : ∀ field ∈ c.field.or context, IsUnmarkedName field) :
    Condition.marked (c.render context) = false := by
  by_cases hneeds : c.predicate.test.needsField = true
  · cases hfield : c.field.or context with
    | none =>
      rw [render_of_no_field hneeds hfield]
      rfl
    | some field =>
      rw [render_of_field hneeds hfield]
      split
      · rfl
      · exact c.predicate.render_not_marked (h field hfield).1 (h field hfield).2
  · rw [render, if_neg hneeds]
    exact c.predicate.render_not_marked (by decide) rfl

end Criterion

/-- What an operand asks of the field that it is listed by, without the field. -/
def Value.question (v : Value) : Text :=
  if v.isList then "IN (" ++ v.quote ++ ")" else "= " ++ v.quote

theorem Operand.render_value {v : Value} (h : ∀ sql, v ≠ .raw sql) (field : Text) :
    (Operand.value v).render field = field ++ ' ' :: v.question := by
  cases v with
  | raw sql => exact absurd rfl (h sql)
  | _ => simp [render, Value.question, Value.isList, lit]

/-- With a value a field is written, and a space behind it. -/
theorem Operand.exists_render_value (field : Text) (v : Value) :
    ∃ r, (Operand.value v).render field = field ++ ' ' :: r := by
  by_cases hraw : ∃ sql, v = .raw sql
  · obtain ⟨sql, rfl⟩ := hraw
    rw [render]
    split
    · rename_i hprefix
      obtain ⟨r, hr⟩ := List.isPrefixOf_iff_prefix.1 hprefix
      exact ⟨r, by rw [← hr]; simp⟩
    · exact ⟨"= " ++ sql, by simp [lit]⟩
  · exact ⟨v.question, render_value (not_exists.1 hraw) field⟩

namespace Leaf

/-- A leaf is not written exactly if it is silent. -/
theorem text_eq_nil_iff {leaf : Leaf} : leaf.text = [] ↔ leaf.Silent := by
  cases leaf with
  | sql text => exact Text.blank_iff_trim_eq_nil.symm
  | criterion c =>
    rw [text, Criterion.render_eq_nil_iff, Silent]
    cases c.field <;> simp
  | entry field operand =>
    cases operand with
    | value v =>
      obtain ⟨r, hr⟩ := Operand.exists_render_value field v
      rw [text, hr]
      simp [Silent]
    | criterion c =>
      rw [text, Operand.render, Criterion.render_eq_nil_iff, Silent]
      cases c.field <;> simp

/-- Apart from verbatim SQL, no leaf is marked. -/
theorem not_marked {leaf : Leaf} (hnames : ∀ name ∈ leaf.names, IsUnmarkedName name)
    (hsql : ∀ text, leaf ≠ .sql text) : Condition.marked leaf.text = false := by
  cases leaf with
  | sql text => exact absurd rfl (hsql text)
  | criterion c =>
    refine Criterion.render_not_marked fun field hfield => hnames field ?_
    simpa [names] using hfield
  | entry field operand =>
    cases operand with
    | criterion c =>
      refine Criterion.render_not_marked fun name hname => hnames name ?_
      cases hbound : c.field <;> simp_all [names]
    | value v =>
      obtain ⟨r, hr⟩ := Operand.exists_render_value field v
      rw [text, hr]
      exact (hnames field (by simp [names])).not_marked r

/-- No leaf is written as a bare mark. -/
theorem text_ne_mark {leaf : Leaf} (hnames : ∀ name ∈ leaf.names, IsUnmarkedName name) :
    leaf.text ≠ Condition.mark := by
  by_cases hsql : ∃ text, leaf = .sql text
  · obtain ⟨text, rfl⟩ := hsql
    exact text.trim_ne_mark
  · intro hmark
    have hmarked := not_marked hnames (not_exists.1 hsql)
    rw [hmark] at hmarked
    exact absurd hmarked (by decide)

end Leaf

/-! ## From the leaves to the whole text -/

namespace Condition

theorem mem_element_iff {text part : Text} : part ∈ element text ↔ part = text ∧ part ≠ [] := by
  unfold element
  split
  · rename_i hempty
    rw [List.isEmpty_iff.1 hempty]
    simp
  · rename_i hne
    rw [List.isEmpty_iff] at hne
    rw [List.mem_singleton]
    refine ⟨fun h => ⟨h, ?_⟩, And.left⟩
    rw [h]
    exact hne

theorem flatten_element (text : Text) : (element text).flatten = text := by
  unfold element
  split <;> simp_all

theorem element_eq_nil_iff {text : Text} : element text = [] ↔ text = [] := by
  unfold element
  split <;> simp_all

/-- Every element says something. -/
theorem ne_nil_of_mem_parts (c : Condition) : ∀ part ∈ c.parts, part ≠ [] := by
  induction c using Condition.induction with
  | sql text => exact fun _ hpart => (mem_element_iff.1 hpart).2
  | criterion c => exact fun _ hpart => (mem_element_iff.1 hpart).2
  | any arms => exact fun _ hpart => (mem_element_iff.1 hpart).2
  | fields entries => exact fun _ hpart => (Text.mem_nonempty.1 hpart).2
  | all items ih =>
    intro part hpart
    rw [parts, partsOfAll_eq_flatMap] at hpart
    obtain ⟨item, hitem, hmem⟩ := List.mem_flatMap.1 hpart
    exact ih item hitem part hmem

/-- No element is a bare mark. -/
theorem ne_mark_of_mem_parts {c : Condition} (h : c.NamesUnmarked) :
    ∀ part ∈ c.parts, part ≠ mark := by
  induction c using Condition.induction with
  | sql text =>
    intro part hpart
    rw [(mem_element_iff.1 hpart).1]
    exact text.trim_ne_mark
  | criterion c =>
    intro part hpart
    rw [(mem_element_iff.1 hpart).1]
    exact Leaf.text_ne_mark (h (.criterion c) (List.mem_singleton_self _))
  | any arms =>
    intro part hpart
    rw [(mem_element_iff.1 hpart).1]
    exact Text.trim_ne_mark _
  | fields entries =>
    intro part hpart
    obtain ⟨⟨field, operand⟩, hentry, rfl⟩ := List.mem_map.1 (Text.mem_nonempty.1 hpart).1
    have hleaf : Leaf.entry field operand ∈ (Condition.fields entries).leaves :=
      List.mem_map.2 ⟨(field, operand), hentry, rfl⟩
    exact Leaf.text_ne_mark (h (.entry field operand) hleaf)
  | all items ih =>
    intro part hpart
    rw [parts, partsOfAll_eq_flatMap] at hpart
    obtain ⟨item, hitem, hmem⟩ := List.mem_flatMap.1 hpart
    exact ih item hitem (forall_mem_leaves_all.1 h item hitem) part hmem

/-! ### What is empty -/

/-- What joins elements to others is more than a space. -/
theorem chain_ne_space (parts : List Text) : chain " AND " parts ≠ [' '] := by
  cases parts with
  | nil => simp [chain]
  | cons part rest =>
    intro h
    rw [chain, List.flatMap_cons, joiner] at h
    split at h
    · rename_i hmarked
      have hnil : part = [] := by
        simp only [List.cons_append, List.nil_append, List.cons.injEq, true_and,
          List.append_eq_nil_iff] at h
        exact h.1
      rw [hnil] at hmarked
      exact absurd hmarked (by decide)
    · simp [lit] at h

/-- Elements of which none is empty or a bare mark make a text that is not empty. -/
theorem conjunction_eq_nil_iff {parts : List Text} (hne : ∀ part ∈ parts, part ≠ [])
    (hmark : ∀ part ∈ parts, part ≠ mark) : conjunction parts = [] ↔ parts = [] := by
  cases parts with
  | nil => exact iff_of_true rfl rfl
  | cons first rest =>
    refine iff_of_false ?_ (List.cons_ne_nil first rest)
    have hfirst := hne first List.mem_cons_self
    have hspace : chain " AND " rest = [] ∨ ∃ r, chain " AND " rest = ' ' :: r :=
      chain_eq_nil_or (lit "AND ") rest
    rw [conjunction_cons]
    refine withoutMark_ne_nil (by simp [hfirst]) fun hbare => ?_
    rcases hspace with hnil | ⟨r, hr⟩
    · rw [hnil, List.append_nil] at hbare
      exact hmark first List.mem_cons_self hbare
    · rw [hr] at hbare
      rw [(append_space_eq_mark hbare).2] at hr
      exact chain_ne_space rest hr

theorem trim_disjunction_eq_nil_iff {arms : List Text} :
    (disjunction arms).trim = [] ↔ arms = [] := by
  match arms with
  | [] => exact iff_of_true rfl rfl
  | [arm] =>
    refine iff_of_false ?_ (List.cons_ne_nil arm [])
    rw [← Text.blank_iff_trim_eq_nil, disjunction, Bool.not_eq_true]
    exact blank_eq_false (c := 'O') (by simp [mark, lit]) rfl
  | first :: second :: rest =>
    refine iff_of_false ?_ (List.cons_ne_nil first _)
    rw [disjunction, trim_bracketed]
    · exact List.cons_ne_nil _ _
    · simp

theorem render_eq_nil_iff_parts {c : Condition} (h : c.NamesUnmarked) :
    c.render = [] ↔ c.parts = [] :=
  conjunction_eq_nil_iff c.ne_nil_of_mem_parts (ne_mark_of_mem_parts h)

/-- A condition has no elements exactly if all of its leaves are silent. -/
theorem parts_eq_nil_iff {c : Condition} (h : c.NamesUnmarked) : c.parts = [] ↔ c.Silent := by
  induction c using Condition.induction with
  | sql text =>
    rw [parts, element_eq_nil_iff, Silent, leaves, List.forall_mem_singleton,
      ← Leaf.text_eq_nil_iff, Leaf.text]
  | criterion c =>
    rw [parts, element_eq_nil_iff, Silent, leaves, List.forall_mem_singleton,
      ← Leaf.text_eq_nil_iff, Leaf.text]
  | all items ih =>
    have hitems := forall_mem_leaves_all.1 h
    rw [parts, partsOfAll_eq_flatMap, List.flatMap_eq_nil_iff, Silent, forall_mem_leaves_all]
    exact forall₂_congr fun item hitem => ih item hitem (hitems item hitem)
  | any arms ih =>
    have harms := forall_mem_leaves_all.1 h
    rw [parts, element_eq_nil_iff, trim_disjunction_eq_nil_iff, armTexts_eq_map,
      Text.nonempty_eq_nil_iff, List.forall_mem_map]
    refine Iff.trans ?_ forall_mem_leaves_all.symm
    exact forall₂_congr fun arm harm =>
      (render_eq_nil_iff_parts (harms arm harm)).trans (ih arm harm (harms arm harm))
  | fields entries =>
    rw [parts, Text.nonempty_eq_nil_iff, List.forall_mem_map, Silent, leaves, List.forall_mem_map]
    exact forall₂_congr fun (field, operand) _ =>
      @Leaf.text_eq_nil_iff (.entry field operand)

/-- A condition is not written exactly if all of its leaves are silent. -/
theorem render_eq_nil_iff {c : Condition} (h : c.NamesUnmarked) : c.render = [] ↔ c.Silent :=
  (render_eq_nil_iff_parts h).trans (parts_eq_nil_iff h)

end Condition

end SqlCompose
