import Mathlib.Data.List.Forall2
import SqlCompose.Clause.Table

/-!
# What joins are qualified with

A join that is written qualifies its two fields, the right one by its own
table and the left one by the table that the chain has reached.  The chain
moves on to the table of every join that names one, also of a join that is
left out for want of a kind or of its fields.  So the left qualifier may be a
table that stands nowhere in the text.

* `chained` is what the chain does, `inScope` what a reader of the text sees:
  the table of the written join before, or the base.
* `renderChain_chained` says that the text of a chain is written as `chained`
  has it, and `readsBehind_iff` that a written join tells its left table by
  the display name.
* `renderChain_inScope_iff` puts both together: the qualifiers are in scope
  exactly where `chained` and `inScope` show the same names, and then the
  joins that are left out might as well not be there.
-/

namespace SqlCompose.Join

/-- Whether a join has a kind, a table and a pair of fields; any other is left out. -/
def complete (j : Join) : Bool := !j.kind.blank && j.target.isSome && j.on.isSome

/-- The joins that are written, each with the table of the nearest join before it that
names one. -/
def chained (left : TableRef) : List Join → List (TableRef × Join)
  | [] => []
  | j :: rest =>
    (if j.complete then [(left, j)] else []) ++ chained (j.target.getD left) rest

/-- The joins that are written, each with the table of the written join before it. -/
def inScope (left : TableRef) : List Join → List (TableRef × Join)
  | [] => []
  | j :: rest =>
    if j.complete then (left, j) :: inScope (j.target.getD left) rest else inScope left rest

/-- The names that the left fields of written joins are qualified with. -/
def leftNames (joins : List (TableRef × Join)) : List Text := joins.map (·.1.displayName)

/-- A join as it is written behind a table. -/
def ReadsBehind (left : TableRef) (j : Join) (text : Text) : Prop :=
  ∃ right leftField rightField table, j.target = some right ∧
    j.on = some (leftField, rightField) ∧ right.render = .ok table ∧
    text = (JoinKind.ofText j.kind).render ++ " JOIN " ++ table ++ " ON " ++
      left.displayName ++ '.' :: leftField ++ " = " ++ right.displayName ++ '.' :: rightField

/-- Joins as they are written, each behind the table that it is listed with. -/
def ReadAs (joins : List (TableRef × Join)) (pieces : List Text) : Prop :=
  List.Forall₂ (fun entry piece => ReadsBehind entry.1 entry.2 piece) joins pieces

/-! ## One join -/

theorem complete_iff {j : Join} :
    j.complete = true ↔ j.kind.blank = false ∧ (∃ right, j.target = some right) ∧
      ∃ fields, j.on = some fields := by
  simp [complete, Option.isSome_iff_exists, and_assoc]

/-- A join that is not complete is written as nothing. -/
theorem render_of_not_complete {j : Join} (h : j.complete = false) (left : TableRef) :
    j.render (some left) = .ok [] := by
  unfold render
  split
  · rename_i left' right leftField rightField _ htarget hon
    have hblank : j.kind.blank = true := by
      by_contra hkind
      have hcomplete : j.complete = true :=
        complete_iff.2 ⟨by simpa using hkind, ⟨right, htarget⟩, ⟨_, hon⟩⟩
      rw [h] at hcomplete
      exact absurd hcomplete (by decide)
    rw [if_pos hblank]
  · rfl

/-- A complete join is written behind its left table if its own table can be written. -/
theorem render_of_complete {j : Join} (h : j.complete = true) {left : TableRef} {text : Text} :
    j.render (some left) = .ok text ↔ ReadsBehind left j text := by
  obtain ⟨hkind, ⟨right, htarget⟩, ⟨leftField, rightField⟩, hon⟩ := complete_iff.1 h
  unfold render ReadsBehind
  rw [htarget, hon]
  simp only [hkind]
  cases hright : right.render with
  | error cause => simp [hright, bind, Except.bind]
  | ok table => simp [hright, bind, Except.bind, pure, Except.pure, eq_comm]

theorem ReadsBehind.ne_nil {left : TableRef} {j : Join} {text : Text}
    (h : ReadsBehind left j text) : text ≠ [] := by
  obtain ⟨right, leftField, rightField, table, _, _, _, rfl⟩ := h
  simp

/-- What is written for a join tells the display name of its left table, and nothing else
about that table. -/
theorem readsBehind_iff {left left' : TableRef} {j : Join} {text : Text}
    (h : ReadsBehind left j text) :
    ReadsBehind left' j text ↔ left'.displayName = left.displayName := by
  obtain ⟨right, leftField, rightField, table, htarget, hon, htable, htext⟩ := h
  constructor
  · rintro ⟨right', leftField', rightField', table', htarget', hon', htable', htext'⟩
    obtain rfl : right = right' := Option.some.inj (htarget.symm.trans htarget')
    obtain ⟨rfl, rfl⟩ : leftField = leftField' ∧ rightField = rightField' := by
      simpa using hon.symm.trans hon'
    obtain rfl : table = table' := Except.ok.inj (htable.symm.trans htable')
    rw [htext'] at htext
    simpa using htext
  · intro hname
    exact ⟨right, leftField, rightField, table, htarget, hon, htable, by rw [htext, hname]⟩

/-! ## All joins of a chain -/

theorem renderEach_cons {left : TableRef} {j : Join} {rest : List Join} {pieces : List Text} :
    renderEach (some left) (j :: rest) = .ok pieces ↔
      ∃ text later, j.render (some left) = .ok text ∧
        renderEach (some (j.target.getD left)) rest = .ok later ∧ pieces = text :: later := by
  have hleft : j.target.or (some left) = some (j.target.getD left) := by
    cases j.target <;> rfl
  rw [renderEach, hleft]
  cases j.render (some left) with
  | error cause => simp [bind, Except.bind]
  | ok text =>
    cases renderEach (some (j.target.getD left)) rest with
    | error cause => simp [bind, Except.bind]
    | ok later => simp [bind, Except.bind, pure, Except.pure, eq_comm]

/-- The joins of a chain are written behind the tables that the chain reaches. -/
theorem renderEach_chained {left : TableRef} {joins : List Join} {pieces : List Text}
    (h : renderEach (some left) joins = .ok pieces) :
    ReadAs (chained left joins) (Text.nonempty pieces) := by
  induction joins generalizing left pieces with
  | nil =>
    obtain rfl : [] = pieces := Except.ok.inj h
    exact .nil
  | cons j rest ih =>
    obtain ⟨text, later, htext, hlater, rfl⟩ := renderEach_cons.1 h
    have hrest := ih hlater
    cases hcomplete : j.complete with
    | false =>
      rw [render_of_not_complete hcomplete] at htext
      obtain rfl : [] = text := Except.ok.inj htext
      rw [chained, hcomplete]
      exact hrest
    | true =>
      have hreads := (render_of_complete hcomplete).1 htext
      have hsolid : text.isEmpty = false := by simpa using hreads.ne_nil
      rw [chained, hcomplete, Text.nonempty, List.filter_cons, hsolid]
      exact .cons hreads hrest

theorem renderChain_eq_ok {left : TableRef} {joins : List Join} {text : Text} :
    renderChain (some left) joins = .ok text ↔
      ∃ pieces, renderEach (some left) joins = .ok pieces ∧ text = Text.spaced pieces := by
  unfold renderChain
  cases renderEach (some left) joins with
  | error cause => simp [bind, Except.bind]
  | ok pieces => simp [bind, Except.bind, pure, Except.pure, eq_comm]

/-- The text of a chain is that of its joins, behind the tables that the chain reaches. -/
theorem renderChain_chained {left : TableRef} {joins : List Join} {text : Text}
    (h : renderChain (some left) joins = .ok text) :
    ∃ pieces, text = Text.joinWith " " pieces ∧ ReadAs (chained left joins) pieces := by
  obtain ⟨pieces, heach, rfl⟩ := renderChain_eq_ok.1 h
  exact ⟨Text.nonempty pieces, rfl, renderEach_chained heach⟩

/-! ## The joins that are complete -/

/-- With only complete joins, the chain moves exactly as the text does. -/
theorem chained_filter_complete (left : TableRef) (joins : List Join) :
    chained left (joins.filter complete) = inScope left joins := by
  induction joins generalizing left with
  | nil => rfl
  | cons j rest ih =>
    by_cases hcomplete : j.complete = true
    · rw [List.filter_cons_of_pos hcomplete, chained, inScope, if_pos hcomplete, if_pos hcomplete,
        ih, List.singleton_append]
    · rw [List.filter_cons_of_neg hcomplete, inScope, if_neg hcomplete, ih]

/-- A table that can be written can be written behind any other. -/
theorem exists_readsBehind {left : TableRef} {j : Join} {text : Text}
    (h : ReadsBehind left j text) (left' : TableRef) : ∃ text', ReadsBehind left' j text' := by
  obtain ⟨right, leftField, rightField, table, htarget, hon, htable, _⟩ := h
  exact ⟨_, right, leftField, rightField, table, htarget, hon, htable, rfl⟩

/-- Joins that compile still do when those that are left out are not there. -/
theorem exists_renderEach_filter {left : TableRef} {joins : List Join} {pieces : List Text}
    (h : renderEach (some left) joins = .ok pieces) (left' : TableRef) :
    ∃ pieces', renderEach (some left') (joins.filter complete) = .ok pieces' := by
  induction joins generalizing left pieces left' with
  | nil => exact ⟨[], rfl⟩
  | cons j rest ih =>
    obtain ⟨text, later, htext, hlater, rfl⟩ := renderEach_cons.1 h
    by_cases hcomplete : j.complete = true
    · obtain ⟨text', htext'⟩ :=
        exists_readsBehind ((render_of_complete hcomplete).1 htext) left'
      obtain ⟨later', hlater'⟩ := ih hlater (j.target.getD left')
      rw [List.filter_cons_of_pos hcomplete]
      exact ⟨_, renderEach_cons.2
        ⟨text', later', (render_of_complete hcomplete).2 htext', hlater', rfl⟩⟩
    · rw [List.filter_cons_of_neg hcomplete]
      exact ih hlater left'

theorem ReadAs.unique {joins : List (TableRef × Join)} {pieces pieces' : List Text}
    (h : ReadAs joins pieces) (h' : ReadAs joins pieces') : pieces = pieces' := by
  induction h generalizing pieces' with
  | nil => exact (List.forall₂_nil_left_iff.1 h').symm
  | @cons entry piece joins pieces hpiece _ ih =>
    obtain ⟨piece', rest', hpiece', hrest', rfl⟩ := List.forall₂_cons_left_iff.1 h'
    obtain ⟨right, _, _, table, htarget, hon, htable, rfl⟩ := hpiece
    obtain ⟨right', _, _, table', htarget', hon', htable', rfl⟩ := hpiece'
    obtain rfl : right = right' := Option.some.inj (htarget.symm.trans htarget')
    obtain rfl : table = table' := Except.ok.inj (htable.symm.trans htable')
    obtain ⟨rfl, rfl⟩ := Prod.mk.inj (Option.some.inj (hon.symm.trans hon'))
    rw [ih hrest']

/-! ## The joins that name no table -/

/-- The written joins of a chain begin with its first join, if that is written. -/
theorem map_nonempty_renderEach_cons (left : Option TableRef) (j : Join) (rest : List Join) :
    (renderEach left (j :: rest)).map Text.nonempty =
      (j.render left).bind fun text =>
        ((renderEach (j.target.or left) rest).map Text.nonempty).map
          (Text.nonempty [text] ++ ·) := by
  rw [renderEach]
  cases j.render left with
  | error cause => rfl
  | ok text =>
    cases renderEach (j.target.or left) rest with
    | error cause => rfl
    | ok later =>
      change Except.ok (Text.nonempty ([text] ++ later)) = _
      rw [Text.nonempty_append]
      rfl

theorem render_of_no_target {j : Join} (h : j.target = none) (left : Option TableRef) :
    j.render left = .ok [] := by
  unfold render
  rw [h]
  cases left <;> rfl

theorem renderChain_eq_map (left : Option TableRef) (joins : List Join) :
    renderChain left joins =
      ((renderEach left joins).map Text.nonempty).map (Text.joinWith " ") := by
  unfold renderChain
  cases renderEach left joins <;> rfl

/-- Joins that name no table make no difference to a chain, whether it compiles or not. -/
theorem renderChain_filter_target (left : Option TableRef) (joins : List Join) :
    renderChain left (joins.filter fun j => j.target.isSome) = renderChain left joins := by
  have heach : (renderEach left (joins.filter fun j => j.target.isSome)).map Text.nonempty =
      (renderEach left joins).map Text.nonempty := by
    induction joins generalizing left with
    | nil => rfl
    | cons j rest ih =>
      rw [map_nonempty_renderEach_cons]
      cases htarget : j.target with
      | none =>
        rw [List.filter_cons_of_neg (by simp [htarget]), ih, render_of_no_target htarget,
          Option.none_or]
        cases renderEach left rest <;> rfl
      | some right =>
        rw [List.filter_cons_of_pos (by simp [htarget]), map_nonempty_renderEach_cons, htarget, ih]
  rw [renderChain_eq_map, renderChain_eq_map, heach]

/-! ## Qualifiers in scope -/

/-- The two lists have the same joins, and differ in the tables at most. -/
theorem map_snd_chained (left left' : TableRef) (joins : List Join) :
    (chained left joins).map Prod.snd = (inScope left' joins).map Prod.snd := by
  induction joins generalizing left left' with
  | nil => rfl
  | cons j rest ih =>
    rw [chained, inScope]
    by_cases hcomplete : j.complete = true
    · simpa [hcomplete] using ih _ _
    · simpa [hcomplete] using ih _ _

/-- Joins are read behind other tables where these show the same names. -/
theorem readAs_iff {joins joins' : List (TableRef × Join)} {pieces : List Text}
    (h : ReadAs joins pieces) (hjoins : joins.map Prod.snd = joins'.map Prod.snd) :
    ReadAs joins' pieces ↔ leftNames joins' = leftNames joins := by
  induction h generalizing joins' with
  | nil =>
    obtain rfl : joins' = [] := by simpa using hjoins.symm
    exact ⟨fun _ => rfl, fun _ => .nil⟩
  | @cons entry piece joins pieces hpiece _ ih =>
    cases joins' with
    | nil => simp at hjoins
    | cons entry' joins' =>
      obtain ⟨hjoin, hrest⟩ : entry.2 = entry'.2 ∧ joins.map Prod.snd = joins'.map Prod.snd := by
        simpa using hjoins
      have hentry : ReadsBehind entry'.1 entry'.2 piece ↔
          entry'.1.displayName = entry.1.displayName := by
        rw [← hjoin]
        exact readsBehind_iff hpiece
      have hlater := ih hrest
      unfold ReadAs leftNames at hlater ⊢
      rw [List.forall₂_cons, hentry, hlater, List.map_cons, List.map_cons, List.cons.injEq]

/-- Every left qualifier of a chain is the table of the written join before, or the base,
exactly where the chain shows the names of these tables; then the joins that are left out
make no difference to the text.  Those that name no table never make one. -/
theorem renderChain_inScope_iff {base : TableRef} {joins : List Join} {text : Text}
    (h : renderChain (some base) joins = .ok text) :
    renderChain (some base) (joins.filter fun j => j.target.isSome) = .ok text ∧
    ∃ pieces, text = Text.joinWith " " pieces ∧ ReadAs (chained base joins) pieces ∧
      (ReadAs (inScope base joins) pieces ↔
        leftNames (inScope base joins) = leftNames (chained base joins)) ∧
      (leftNames (inScope base joins) = leftNames (chained base joins) →
        renderChain (some base) (joins.filter complete) = .ok text) := by
  obtain ⟨each, heach, htext⟩ := renderChain_eq_ok.1 h
  obtain ⟨pieces, hpieces, hchained⟩ := renderChain_chained h
  have hiff := readAs_iff hchained (map_snd_chained base base joins)
  refine ⟨(renderChain_filter_target _ joins).trans h, pieces, hpieces, hchained, hiff, ?_⟩
  intro hnames
  obtain ⟨each', heach'⟩ := exists_renderEach_filter heach base
  have hfiltered := renderEach_chained heach'
  rw [chained_filter_complete] at hfiltered
  have hsame : pieces = Text.nonempty each' := (hiff.2 hnames).unique hfiltered
  rw [renderChain_eq_ok]
  exact ⟨each', heach', by rw [hpieces, hsame]; rfl⟩

/-- A blank table, a table without fields that shows the name already in scope, an alias,
and a kind that is no word of SQL. -/
def sameName : List Join :=
  [{ kind := "left", table := some (.named " "), on := some ("a", "b") },
    { kind := "left", table := some (.named " tb1 ") },
    { kind := "right", table := some (.aliased "tb2" "t"), on := some ("a", "b") },
    { kind := "outer", table := some (.named "tb3"), on := some ("c", "d") }]

theorem renderChain_inScope_iff_sameName :
    renderChain (some (.named "tb1")) sameName =
        .ok "RIGHT JOIN tb2 AS t ON tb1.a = t.b INNER JOIN tb3 ON t.c = tb3.d" ∧
      renderChain (some (.named "tb1")) (sameName.drop 2) =
        .ok "RIGHT JOIN tb2 AS t ON tb1.a = t.b INNER JOIN tb3 ON t.c = tb3.d" := by
  have hchain : renderChain (some (.named "tb1")) sameName =
      .ok "RIGHT JOIN tb2 AS t ON tb1.a = t.b INNER JOIN tb3 ON t.c = tb3.d" := rfl
  obtain ⟨_, _, _, _, _, hinert⟩ := renderChain_inScope_iff hchain
  exact ⟨hchain, hinert rfl⟩

/-- A join without fields between a base and a join that is complete. -/
def withoutFields : List Join :=
  [{ kind := "left", table := some (.named "tb2") },
    { kind := "left", table := some (.named "tb3"), on := some ("a", "b") }]

/-- The join without fields is left out, but its table, which stands nowhere in the text,
qualifies a field of the next one. -/
theorem renderChain_withoutFields :
    renderChain (some (.named "tb1")) withoutFields =
        .ok "LEFT JOIN tb3 ON tb2.a = tb3.b" ∧
      ¬ ReadAs (inScope (.named "tb1") withoutFields) ["LEFT JOIN tb3 ON tb2.a = tb3.b"] ∧
      renderChain (some (.named "tb1")) (withoutFields.filter complete) =
        .ok "LEFT JOIN tb3 ON tb1.a = tb3.b" := by
  refine ⟨rfl, ?_, rfl⟩
  intro hread
  have hscope : inScope (.named "tb1") withoutFields = [(.named "tb1",
    { kind := "left", table := some (.named "tb3"), on := some ("a", "b") })] := rfl
  rw [hscope] at hread
  obtain ⟨⟨right, leftField, rightField, table, htarget, hon, htable, htext⟩, _⟩ :=
    List.forall₂_cons.1 hread
  obtain rfl : .named "tb3" = right := Option.some.inj htarget
  obtain ⟨rfl, rfl⟩ := Prod.mk.inj (Option.some.inj hon)
  obtain rfl := Except.ok.inj htable
  exact absurd htext (by decide)

end SqlCompose.Join
