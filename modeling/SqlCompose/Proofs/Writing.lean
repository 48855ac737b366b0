import SqlCompose.Proofs.Injection.Statements

/-!
# Properties that written text keeps

A statement is put together from the texts that it is given, from operands and
from words of SQL, with spaces, commas, dots and brackets between.  `Kept`
lists what has to be known of a property of texts so that it is not lost on
the way, and the lemmas below follow the renderers: a property that is kept,
and that holds of all `verbatims`, holds of what is written.

Only the bodies of clauses are about the words that every property has to
hold of.  The words that begin a clause of a `SELECT` are an assumption of
`Kept.select` alone, and `ORDER BY` and `LIMIT` are left to its caller, so it
can be used for properties that single out these words.
-/

namespace SqlCompose

/-- The words of SQL in the bodies of clauses. -/
def bodyWords : List Text :=
  ["*", "=", "AND", "AS", "ASC", "BETWEEN", "DESC", "EXISTS", "IN", "IS", "LIKE", "NOT", "NULL",
    "OFFSET", "OR"]

/-- The words that begin the clauses of a `SELECT`, and those of its joins. -/
def selectWords : List Text :=
  ["SELECT", "DISTINCT", "TOP", "FROM", "INNER", "LEFT", "RIGHT", "CROSS", "JOIN", "ON", "WHERE",
    "GROUP", "BY", "HAVING"]

/-- The words of a join. -/
def joinWords : List Text := ["INNER", "LEFT", "RIGHT", "CROSS", "JOIN", "ON"]

/-- A property of texts that is kept when texts are put together. -/
structure Kept (P : Text → Prop) : Prop where
  nil : P []
  separated {c : Char} {a b : Text} (hc : c ∈ [' ', ',', '.']) (ha : P a) (hb : P b) :
    P (a ++ c :: b)
  bracketed {a : Text} (ha : P a) : P (Text.bracketed a)
  trim {a : Text} (ha : P a) : P a.trim
  unmarked {a : Text} (ha : P (Condition.mark ++ a)) : P a
  word {w : Text} (hw : w ∈ bodyWords) : P w
  scalar (v : Value) (hlist : v.isList = false) (hraw : v.RawFree) : P v.quote

/-! ## Pieces with spaces between -/

namespace Text

@[simp] theorem spaced_nil_cons (rest : List Text) : spaced ([] :: rest) = spaced rest := rfl

/-- A piece in front of others, of which all may be empty. -/
theorem spaced_cons {piece : Text} (h : piece ≠ []) (rest : List Text) :
    spaced (piece :: rest) =
      if spaced rest = [] then piece else piece ++ ' ' :: spaced rest := by
  have hfront : nonempty (piece :: rest) = piece :: nonempty rest := by simp [nonempty, h]
  rw [spaced, joinNonempty, hfront, spaced, joinNonempty, joinWith, joinWith]
  cases hrest : nonempty rest with
  | nil => simp
  | cons next more =>
    have hnext : next ≠ [] := (mem_nonempty.1 (by rw [hrest]; simp : next ∈ nonempty rest)).2
    have hbehind : (lit " ").intercalate (next :: more) ≠ [] := by
      cases more with
      | nil => simpa using hnext
      | cons => simp [hnext]
    rw [if_neg hbehind, List.intercalate_cons_cons]
    simp [lit]

@[simp] theorem spaced_singleton (piece : Text) : spaced [piece] = piece := by
  by_cases h : piece = []
  · rw [h]
    rfl
  · rw [spaced_cons h]
    exact if_pos rfl

/-- Pieces of which one is not empty are written. -/
theorem spaced_ne_nil {piece : Text} {pieces : List Text} (hmem : piece ∈ pieces)
    (h : piece ≠ []) : spaced pieces ≠ [] := by
  induction pieces with
  | nil => simp at hmem
  | cons first rest ih =>
    by_cases hfirst : first = []
    · rw [hfirst, spaced_nil_cons]
      refine ih ((List.mem_cons.1 hmem).resolve_left ?_)
      rintro rfl
      exact h hfirst
    · rw [spaced_cons hfirst]
      split
      · exact hfirst
      · simp

/-- Some of the first pieces can be put together before all of them are. -/
theorem spaced_append (front rest : List Text) :
    spaced (front ++ rest) = spaced (spaced front :: rest) := by
  induction front with
  | nil => rfl
  | cons piece front ih =>
    by_cases hpiece : piece = []
    · rw [hpiece]
      exact ih
    have hboth : spaced (piece :: front) ≠ [] := spaced_ne_nil List.mem_cons_self hpiece
    rw [List.cons_append, spaced_cons hpiece, ih, spaced_cons hboth, spaced_cons hpiece]
    by_cases hfront : spaced front = []
    · simp [hfront]
    · rw [if_neg (spaced_ne_nil List.mem_cons_self hfront), spaced_cons hfront, if_neg hfront]
      split <;> simp

/-- What is kept when a blank is taken from either end is kept when all of them are. -/
theorem trim_of_blank {P : Text → Prop}
    (hfront : ∀ {c : Char} {t : Text}, isBlank c = true → P (c :: t) → P t)
    (hback : ∀ {c : Char} {t : Text}, isBlank c = true → P (t ++ [c]) → P t) {t : Text}
    (ht : P t) : P t.trim := by
  have hstart : P t.trimStart := by
    induction t with
    | nil => exact ht
    | cons c t ih =>
      cases hc : isBlank c with
      | false => simpa [trimStart, hc] using ht
      | true => simpa [trimStart, hc] using ih (hfront hc ht)
  rw [trim]
  generalize t.trimStart = u at hstart
  induction u using List.reverseRecOn with
  | nil => exact hstart
  | append_singleton u c ih =>
    cases hc : isBlank c with
    | false => simpa [trimEnd, hc] using hstart
    | true => simpa [trimEnd, hc] using ih (hback hc hstart)

end Text

namespace Kept

variable {P : Text → Prop} {a b t w : Text}

/-! ## Putting texts together -/

/-- A word in front of a text. -/
theorem worded (h : Kept P) (hw : P w) (ha : P a) : P (w ++ ' ' :: a) :=
  h.separated (by simp) hw ha

/-- A word between two texts. -/
theorem between (h : Kept P) (hw : P w) (ha : P a) (hb : P b) :
    P (a ++ (' ' :: w ++ [' ']) ++ b) := by
  have hall := h.worded ha (h.worded hw hb)
  simpa using hall

theorem comma (h : Kept P) (ha : P a) (hb : P b) : P (a ++ ", " ++ b) := by
  have hspaced : P (' ' :: b) := h.worded h.nil hb
  have hall := h.separated (c := ',') (by simp) ha hspaced
  simpa [lit] using hall

theorem joinWith (h : Kept P) {sep : Text} (hsep : ∀ {a b}, P a → P b → P (a ++ sep ++ b))
    {pieces : List Text} (hpieces : ∀ piece ∈ pieces, P piece) : P (Text.joinWith sep pieces) := by
  induction pieces with
  | nil => exact h.nil
  | cons piece rest ih =>
    have hfirst := hpieces piece (by simp)
    have hrest := ih fun u hu => hpieces u (by simp [hu])
    cases rest with
    | nil => simpa using hfirst
    | cons next rest =>
      rw [Text.joinWith, List.intercalate_cons_cons]
      exact hsep hfirst hrest

theorem joinNonempty (h : Kept P) {sep : Text} (hsep : ∀ {a b}, P a → P b → P (a ++ sep ++ b))
    {pieces : List Text} (hpieces : ∀ piece ∈ pieces, P piece) :
    P (Text.joinNonempty sep pieces) :=
  h.joinWith hsep fun piece hmem => hpieces piece (Text.mem_nonempty.1 hmem).1

theorem spaced (h : Kept P) {pieces : List Text} (hpieces : ∀ piece ∈ pieces, P piece) :
    P (Text.spaced pieces) := by
  refine h.joinNonempty (fun ha hb => ?_) hpieces
  simpa [lit] using h.worded ha hb

theorem clause (h : Kept P) (hw : P w) (ha : P a) : P (Text.clause w a) := by
  unfold Text.clause
  split
  · exact h.nil
  · exact h.worded hw ha

/-- An optional part of a statement. -/
theorem optional (h : Kept P) {α : Type} {f : α → Text} {part : Option α}
    (hpart : ∀ x ∈ part, P (f x)) : P ((part.map f).getD []) := by
  cases part with
  | none => exact h.nil
  | some x => exact hpart x rfl

/-! ## Operands -/

mutual

theorem quote (h : Kept P) : ∀ v : Value, (∀ t ∈ v.verbatims, P t) → P v.quote
  | .list items, hv => by
    rw [Value.quote]
    exact h.joinWith h.comma (h.quoteItems items hv)
  | .raw sql, hv => hv sql (by simp [Value.verbatims])
  | .null, _ | .bool _, _ | .int _, _ | .float _, _ | .text _, _ | .bytes _, _ | .date _, _
  | .timestamp _, _ | .timestampUtc _, _ => h.scalar _ rfl rfl

theorem quoteItems (h : Kept P) : ∀ items : List Value, (∀ t ∈ Value.verbatimsOfItems items, P t) →
    ∀ piece ∈ Value.quoteItems items, P piece
  | [], _ => by simp [Value.quoteItems]
  | item :: rest, hitems => by
    have hitem := h.quote item fun t ht => hitems t (by simp [Value.verbatimsOfItems, ht])
    have hrest := h.quoteItems rest fun t ht => hitems t (by simp [Value.verbatimsOfItems, ht])
    rw [Value.quoteItems, List.forall_mem_cons]
    refine ⟨?_, hrest⟩
    split
    · exact h.bracketed hitem
    · exact hitem

end

theorem countText (h : Kept P) (n : Int64) : P (countText n) :=
  h.scalar (.int n) rfl rfl

/-! ## Conditions -/

theorem notWord (h : Kept P) (negated : Bool) (ha : P a) : P (Predicate.notWord negated ++ a) := by
  cases negated with
  | false => exact ha
  | true => simpa [Predicate.notWord, lit] using h.worded (h.word (w := "NOT") (by decide)) ha

theorem predicate (h : Kept P) (p : Predicate) {field : Text} (hfield : P field)
    (hp : ∀ t ∈ p.test.verbatims, P t) : P (p.render field) := by
  obtain ⟨negated, test⟩ := p
  -- A field and a word that may be negated, as all tests have them but comparisons.
  have hfieldWord : ∀ {w : Text}, w ∈ bodyWords → ∀ {a : Text}, P a →
      P (field ++ ' ' :: Predicate.notWord negated ++ (w ++ ' ' :: a)) := fun hw _ ha => by
    simpa using h.worded hfield (h.notWord negated (h.worded (h.word hw) ha))
  cases test with
  | compare op v =>
    have hop : P op := hp op (by simp [Test.verbatims])
    have hv := h.quote v fun t ht => hp t (by simp [Test.verbatims, ht])
    simpa [Predicate.render] using h.notWord negated (h.worded hfield (h.worded hop hv))
  | like v =>
    simpa [Predicate.render, lit] using hfieldWord (w := "LIKE") (by decide) (h.quote v hp)
  | among v =>
    simpa [Predicate.render, lit, Text.bracketed] using
      hfieldWord (w := "IN") (by decide) (h.bracketed (h.quote v hp))
  | isNull =>
    have hnull := h.notWord negated (h.word (w := "NULL") (by decide))
    have hall := h.worded hfield (h.worded (h.word (w := "IS") (by decide)) hnull)
    simpa [Predicate.render, lit] using hall
  | between v u =>
    have hv := h.quote v fun t ht => hp t (by simp [Test.verbatims, ht])
    have hu := h.quote u fun t ht => hp t (by simp [Test.verbatims, ht])
    have hbounds := h.between (h.word (w := "AND") (by decide)) hv hu
    simpa [Predicate.render, lit] using hfieldWord (w := "BETWEEN") (by decide) hbounds
  | hasRows sql =>
    have hsql := hp sql (by simp [Test.verbatims])
    have hall := h.notWord negated (h.worded (h.word (w := "EXISTS") (by decide)) hsql)
    simpa [Predicate.render, lit] using hall

theorem criterion (h : Kept P) (c : Criterion) {context : Option Text}
    (hcontext : ∀ t ∈ context, P t) (hc : ∀ t ∈ c.verbatims, P t) : P (c.render context) := by
  have hfield : ∀ t ∈ (c.field.or context).map Text.trim, P t := by
    intro t ht
    obtain ⟨u, hu, rfl⟩ := Option.mem_map.1 ht
    apply h.trim
    rcases Option.or_eq_some_iff.1 hu with hu | ⟨-, hu⟩
    · exact hc u (by simp [Criterion.verbatims, Option.mem_def.1 hu])
    · exact hcontext u hu
  have htest : ∀ t ∈ c.predicate.test.verbatims, P t := fun t ht =>
    hc t (by simp [Criterion.verbatims, ht])
  unfold Criterion.render
  split
  · split
    · rename_i hsome
      exact h.predicate _ (hfield _ hsome) htest
    · exact h.nil
  · exact h.predicate _ h.nil htest

theorem operand (h : Kept P) (operand : Operand) {field : Text} (hfield : P field)
    (ho : ∀ t ∈ operand.verbatims, P t) : P (operand.render field) := by
  cases operand with
  | criterion c => exact h.criterion c (by simpa using hfield) ho
  | value v =>
    have hv := h.quote v ho
    have hassigned : P (field ++ " = " ++ v.quote) := by
      simpa [lit] using h.between (h.word (w := "=") (by decide)) hfield hv
    cases v with
    | list items =>
      have hlisted := h.between (h.word (w := "IN") (by decide)) hfield (h.bracketed hv)
      simpa [Operand.render, lit, Text.bracketed] using hlisted
    | raw sql =>
      rw [Operand.render]
      split
      · exact hv
      · exact hassigned
    | null | bool | int | float | text | bytes | date | timestamp | timestampUtc => exact hassigned

/-- Elements behind others. -/
theorem chain (h : Kept P) {unmarked : Text}
    (hunmarked : ∀ {a b}, P a → P b → P (a ++ unmarked ++ b)) (ha : P a) {parts : List Text}
    (hparts : ∀ part ∈ parts, P part) : P (a ++ Condition.chain unmarked parts) := by
  induction parts generalizing a with
  | nil => simpa [Condition.chain] using ha
  | cons part rest ih =>
    have hpart := hparts part (by simp)
    have hjoined : P (a ++ Condition.joiner part unmarked ++ part) := by
      unfold Condition.joiner
      split
      · simpa using h.worded ha hpart
      · exact hunmarked ha hpart
    simpa [Condition.chain] using ih hjoined fun u hu => hparts u (by simp [hu])

theorem conjunction (h : Kept P) {parts : List Text} (hparts : ∀ part ∈ parts, P part) :
    P (Condition.conjunction parts) := by
  cases parts with
  | nil => exact h.nil
  | cons first rest =>
    have hrest : ∀ part ∈ rest, P part := fun u hu => hparts u (by simp [hu])
    have hjoined := h.chain (h.between (h.word (w := "AND") (by decide))) (hparts first (by simp))
      hrest
    change P ((Condition.mark.isPrefixOf? (first ++ Condition.chain " AND " rest)).getD
      (first ++ Condition.chain " AND " rest))
    cases hmark : Condition.mark.isPrefixOf? (first ++ Condition.chain " AND " rest) with
    | none => exact hjoined
    | some behind =>
      have heq := List.isPrefixOf?_eq_some_iff_append_eq.1 hmark
      rw [Option.getD_some]
      apply h.unmarked
      rw [heq]
      exact hjoined

theorem disjunction (h : Kept P) {arms : List Text} (harms : ∀ arm ∈ arms, P arm) :
    P (Condition.disjunction arms) := by
  have hor : P (lit "OR") := h.word (by decide)
  cases arms with
  | nil => exact h.nil
  | cons first rest =>
    cases rest with
    | nil =>
      simpa [Condition.disjunction, Condition.mark, lit] using h.worded hor (harms first (by simp))
    | cons second rest =>
      exact h.bracketed (h.chain (h.between hor) (harms first (by simp))
        fun u hu => harms u (by simp [hu]))

theorem element (ha : P a) : ∀ part ∈ Condition.element a, P part := by
  unfold Condition.element
  split
  · simp
  · simpa using ha

mutual

theorem parts (h : Kept P) : ∀ c : Condition, (∀ t ∈ c.verbatims, P t) → ∀ part ∈ c.parts, P part
  | .sql text, hc => by
    rw [Condition.parts]
    exact element (h.trim (hc text (by simp [Condition.verbatims])))
  | .criterion c, hc => by
    rw [Condition.parts]
    exact element (h.criterion c (by simp) hc)
  | .all items, hc => by
    rw [Condition.parts]
    exact h.partsOfAll items hc
  | .any arms, hc => by
    rw [Condition.parts]
    have harms := h.armTexts arms hc
    exact element (h.trim (h.disjunction fun arm hmem => harms arm (Text.mem_nonempty.1 hmem).1))
  | .fields entries, hc => by
    rw [Condition.parts]
    intro part hpart
    obtain ⟨⟨field, operand⟩, hmem, rfl⟩ := List.mem_map.1 (Text.mem_nonempty.1 hpart).1
    have hentry : ∀ t ∈ field :: operand.verbatims, P t := fun t ht =>
      hc t (List.mem_flatMap.2 ⟨(field, operand), hmem, ht⟩)
    exact h.operand operand (hentry field (by simp)) fun t ht => hentry t (by simp [ht])

theorem partsOfAll (h : Kept P) : ∀ items : List Condition,
    (∀ t ∈ Condition.verbatimsOfItems items, P t) → ∀ part ∈ Condition.partsOfAll items, P part
  | [], _ => by simp [Condition.partsOfAll]
  | item :: rest, hitems => by
    have hitem := h.parts item fun t ht => hitems t (by simp [Condition.verbatimsOfItems, ht])
    have hrest := h.partsOfAll rest fun t ht => hitems t (by simp [Condition.verbatimsOfItems, ht])
    rw [Condition.partsOfAll, List.forall_mem_append]
    exact ⟨hitem, hrest⟩

theorem armTexts (h : Kept P) : ∀ arms : List Condition,
    (∀ t ∈ Condition.verbatimsOfItems arms, P t) → ∀ arm ∈ Condition.armTexts arms, P arm
  | [], _ => by simp [Condition.armTexts]
  | arm :: rest, harms => by
    have harm := h.parts arm fun t ht => harms t (by simp [Condition.verbatimsOfItems, ht])
    have hrest := h.armTexts rest fun t ht => harms t (by simp [Condition.verbatimsOfItems, ht])
    rw [Condition.armTexts, List.forall_mem_cons]
    exact ⟨h.conjunction harm, hrest⟩

end

/-- The body of a clause with a condition. -/
theorem conditionBody (h : Kept P) {c : Option Condition}
    (hc : ∀ t ∈ c.toList.flatMap Condition.verbatims, P t) :
    P ((c.map Condition.render).getD []) :=
  h.optional fun c hmem =>
    h.conjunction (h.parts c (forall_of_flatMap hc (Option.mem_toList.2 hmem)))

/-! ## Clauses without operands -/

theorem joinNames (h : Kept P) {names : List Text} (hnames : ∀ t ∈ names, P t) :
    P (joinNames names) := by
  refine h.joinNonempty h.comma fun piece hmem => ?_
  obtain ⟨name, hname, rfl⟩ := List.mem_map.1 hmem
  exact h.trim (hnames name hname)

theorem groupBody (h : Kept P) (g : GroupBy) (hg : ∀ t ∈ g.verbatims, P t) : P g.body := by
  cases g with
  | verbatim text => exact h.trim (hg text (by simp [GroupBy.verbatims]))
  | names list => exact h.joinNames hg

theorem orderBody (h : Kept P) (o : OrderBy) (ho : ∀ t ∈ o.verbatims, P t) : P o.body := by
  cases o with
  | verbatim text => exact h.trim (ho text (by simp [OrderBy.verbatims]))
  | names list => exact h.joinNames ho
  | directed entries =>
    refine h.joinNonempty h.comma fun piece hmem => ?_
    obtain ⟨⟨field, direction⟩, hentry, rfl⟩ := List.mem_map.1 hmem
    have hfield := ho field (List.mem_map.2 ⟨(field, direction), hentry, rfl⟩)
    have hdirection : P (OrderBy.direction direction) := by
      unfold OrderBy.direction
      split <;> exact h.word (by decide)
    dsimp only
    unfold OrderBy.entry
    split
    · exact h.nil
    · exact h.worded (h.trim hfield) hdirection

theorem limitBody (h : Kept P) (l : RowLimit) (hl : ∀ t ∈ l.verbatims, P t) : P l.body := by
  have hoffset := fun n m => h.between (h.word (w := "OFFSET") (by decide)) (h.countText n)
    (h.countText m)
  unfold RowLimit.body
  split
  · exact h.trim (hl _ (by simp [RowLimit.verbatims]))
  · split_ifs
    · exact h.countText _
    · exact h.nil
  · split_ifs
    · exact h.comma (h.countText _) (h.countText _)
    · exact h.countText _
    · exact h.nil
  · split_ifs
    · exact h.countText _
    · exact h.nil
  · exact h.nil
  · split_ifs
    · exact hoffset _ _
    · exact h.countText _
    · exact h.nil

/-! ## Projections, tables and joins -/

theorem columnTexts (h : Kept P) {key : Text} (hkey : P key) {target : ColumnTarget}
    (htarget : ∀ t ∈ target.verbatims, P t) : ∀ column ∈ target.columnTexts key, P column := by
  cases target with
  | renamed name =>
    have hname := htarget name (by simp [ColumnTarget.verbatims])
    simpa [ColumnTarget.columnTexts, lit] using
      h.between (h.word (w := "AS") (by decide)) hkey hname
  | columns names =>
    intro column hcolumn
    obtain ⟨name, hname, rfl⟩ := List.mem_map.1 hcolumn
    exact h.separated (by simp) hkey (htarget name hname)

mutual

theorem columns (h : Kept P) : ∀ p : Projection, (∀ t ∈ p.verbatims, P t) → P p.columns
  | .verbatim text, hp => h.trim (hp text (by simp [Projection.verbatims]))
  | .list items, hp => by
    rw [Projection.columns]
    exact h.joinNonempty h.comma (h.columnsOfAll items hp)
  | .keyed entries, hp => by
    rw [Projection.columns]
    refine h.joinNonempty h.comma fun piece hmem => ?_
    obtain ⟨⟨key, target⟩, hentry, rfl⟩ := List.mem_map.1 hmem
    have hall := forall_of_flatMap hp hentry
    exact h.joinWith h.comma (h.columnTexts (hall key (by simp)) fun t ht => hall t (by simp [ht]))

theorem columnsOfAll (h : Kept P) : ∀ items : List Projection,
    (∀ t ∈ Projection.verbatimsOfItems items, P t) →
      ∀ piece ∈ Projection.columnsOfAll items, P piece
  | [], _ => by simp [Projection.columnsOfAll]
  | item :: rest, hitems => by
    have hitem := h.columns item fun t ht => hitems t (by simp [Projection.verbatimsOfItems, ht])
    have hrest :=
      h.columnsOfAll rest fun t ht => hitems t (by simp [Projection.verbatimsOfItems, ht])
    rw [Projection.columnsOfAll, List.forall_mem_cons]
    exact ⟨hitem, hrest⟩

end

theorem projection (h : Kept P) {p : Option Projection}
    (hp : ∀ t ∈ p.toList.flatMap Projection.verbatims, P t) : P (Projection.render p) := by
  unfold Projection.render
  dsimp only
  split
  · exact h.word (by decide)
  · exact h.optional fun x hx => h.columns x (forall_of_flatMap hp (Option.mem_toList.2 hx))

theorem displayName (h : Kept P) {table : TableRef} (htable : ∀ t ∈ table.verbatims, P t) :
    P table.displayName := by
  cases table with
  | named name => exact h.trim (htable name (by simp [TableRef.verbatims]))
  | aliased name shortName => exact h.trim (htable shortName (by simp [TableRef.verbatims]))

theorem table (h : Kept P) {table : TableRef} (htable : ∀ t ∈ table.verbatims, P t) {sql : Text}
    (hsql : table.render = .ok sql) : P sql := by
  cases table with
  | named name =>
    rw [TableRef.render] at hsql
    split_ifs at hsql
    obtain rfl := Except.ok.inj hsql
    exact h.trim (htable name (by simp [TableRef.verbatims]))
  | aliased name shortName =>
    rw [TableRef.render] at hsql
    split_ifs at hsql
    obtain rfl := Except.ok.inj hsql
    exact h.between (h.word (w := "AS") (by decide))
      (h.trim (htable name (by simp [TableRef.verbatims])))
      (h.trim (htable shortName (by simp [TableRef.verbatims])))

/-- A join behind the table before it. -/
theorem join (h : Kept P) (hwords : ∀ w ∈ joinWords, P w) {left : Option TableRef} {j : Join}
    (hleft : ∀ t ∈ left.toList.flatMap TableRef.verbatims, P t) (hj : ∀ t ∈ j.verbatims, P t)
    {sql : Text} (hsql : j.render left = .ok sql) : P sql := by
  unfold Join.render at hsql
  split at hsql
  · rename_i left right leftField rightField htarget hon
    obtain ⟨htable, -⟩ := Option.filter_eq_some_iff.1 htarget
    have hright : ∀ t ∈ right.verbatims, P t := fun t ht =>
      hj t (by simp [Join.verbatims, htable, ht])
    have hleftField : P leftField := hj _ (by simp [Join.verbatims, hon])
    have hrightField : P rightField := hj _ (by simp [Join.verbatims, hon])
    split at hsql
    · obtain rfl := Except.ok.inj hsql
      exact h.nil
    · obtain ⟨table, hrendered, hsql⟩ := exists_of_bind_eq_ok hsql
      obtain rfl := Except.ok.inj hsql
      have hkind : P (JoinKind.ofText j.kind).render := by
        cases JoinKind.ofText j.kind <;> exact hwords _ (by decide)
      have hfrom := h.separated (c := '.') (by simp)
        (h.displayName fun t ht => hleft t (by simpa using ht)) hleftField
      have hto := h.separated (c := '.') (by simp) (h.displayName hright) hrightField
      have hbrought := h.between (hwords "JOIN" (by decide)) hkind (h.table hright hrendered)
      have hfields := h.between (h.word (w := "=") (by decide)) hfrom hto
      have hall := h.between (hwords "ON" (by decide)) hbrought hfields
      simpa [lit] using hall
  · obtain rfl := Except.ok.inj hsql
    exact h.nil

theorem joins (h : Kept P) (hwords : ∀ w ∈ joinWords, P w) {left : Option TableRef}
    {joins : List Join} (hleft : ∀ t ∈ left.toList.flatMap TableRef.verbatims, P t)
    (hjoins : ∀ t ∈ joins.flatMap Join.verbatims, P t) {each : List Text}
    (heach : Join.renderEach left joins = .ok each) : ∀ sql ∈ each, P sql := by
  induction joins generalizing left each with
  | nil =>
    obtain rfl := Except.ok.inj heach
    simp
  | cons j rest ih =>
    have hj : ∀ t ∈ j.verbatims, P t := forall_of_flatMap hjoins (by simp)
    -- The table that the next join stands behind is the target of this one, or the old one.
    have hnext : ∀ t ∈ (j.target.or left).toList.flatMap TableRef.verbatims, P t := by
      cases htarget : j.target with
      | none => simpa using hleft
      | some table =>
        obtain ⟨htable, -⟩ := Option.filter_eq_some_iff.1 htarget
        intro t ht
        exact hj t (by simpa [Join.verbatims, htable] using .inl (by simpa using ht))
    rw [Join.renderEach] at heach
    obtain ⟨sql, hsql, heach⟩ := exists_of_bind_eq_ok heach
    obtain ⟨later, hlater, heach⟩ := exists_of_bind_eq_ok heach
    obtain rfl := Except.ok.inj heach
    rw [List.forall_mem_cons]
    exact ⟨h.join hwords hleft hj hsql, ih hnext (fun t ht => hjoins t (by simp [ht])) hlater⟩

/-! ## Queries -/

theorem top (h : Kept P) (hw : P (lit "TOP")) (top : Option Top) : P (Top.clause top) := by
  unfold Top.clause
  split
  · split_ifs
    · simpa [lit] using h.worded hw (h.countText _)
    · exact h.nil
  · exact h.nil

/-- A property of the table of a query, as it is written, and of the bodies of its clauses. -/
structure Bodies (P : Text → Prop) (q : SelectQuery) : Prop where
  table : ∀ {sql : Text}, TableRef.renderRequired q.table = .ok sql → P sql
  fields : P (Projection.render q.fields)
  filter : P ((q.filter.map Condition.render).getD [])
  groupBy : P ((q.groupBy.map GroupBy.body).getD [])
  having : P ((q.having.map Condition.render).getD [])
  orderBy : P ((q.orderBy.map OrderBy.body).getD [])
  limit : P ((q.limit.map RowLimit.body).getD [])

theorem bodies (h : Kept P) {q : SelectQuery} (hq : ∀ t ∈ q.verbatims, P t) : Bodies P q := by
  simp only [SelectQuery.verbatims, List.mem_append, or_imp, forall_and] at hq
  obtain ⟨⟨⟨⟨⟨⟨⟨htable, -⟩, hfields⟩, hfilter⟩, hgroup⟩, hhaving⟩, horder⟩, hlimit⟩ := hq
  exact {
    table := by
      intro sql hrendered
      cases hsome : q.table with
      | none => simp [hsome, TableRef.renderRequired] at hrendered
      | some source =>
        rw [hsome] at hrendered htable
        exact h.table (fun t ht => htable t (by simpa using ht)) hrendered
    fields := h.projection hfields
    filter := h.conditionBody hfilter
    groupBy := h.optional fun g hg =>
      h.groupBody g (forall_of_flatMap hgroup (Option.mem_toList.2 hg))
    having := h.conditionBody hhaving
    orderBy := h.optional fun o ho =>
      h.orderBody o (forall_of_flatMap horder (Option.mem_toList.2 ho))
    limit := h.optional fun l hl =>
      h.limitBody l (forall_of_flatMap hlimit (Option.mem_toList.2 hl)) }

/-- The joins of a query, whose words are no bodies of clauses. -/
theorem joinChain (h : Kept P) (hwords : ∀ w ∈ joinWords, P w) {q : SelectQuery}
    (hq : ∀ t ∈ q.verbatims, P t) {sql : Text} (hsql : Join.renderChain q.table q.joins = .ok sql) :
    P sql := by
  have htable : ∀ t ∈ q.table.toList.flatMap TableRef.verbatims, P t := fun t ht =>
    hq t (by simp [SelectQuery.verbatims, ht])
  have hjoins : ∀ t ∈ q.joins.flatMap Join.verbatims, P t := fun t ht =>
    hq t (by simp [SelectQuery.verbatims, ht])
  rw [Join.renderChain] at hsql
  obtain ⟨each, heach, hsql⟩ := exists_of_bind_eq_ok hsql
  obtain rfl := Except.ok.inj hsql
  exact h.spaced (h.joins hwords htable hjoins heach)

/-- What stands behind the first word of a query, whose order and limit are left to the
caller. -/
theorem select (h : Kept P) (hwords : ∀ w ∈ selectWords, P w) {q : SelectQuery}
    (hq : ∀ t ∈ q.verbatims, P t) (horder : P (OrderBy.clause q.orderBy))
    (hlimit : P (RowLimit.clause q.limit)) {sql : Text} (hsql : q.compile = .ok sql) :
    ∃ behind, sql = "SELECT" ++ ' ' :: behind ∧ P behind := by
  have hbodies := h.bodies hq
  have hjoinWords : joinWords ⊆ selectWords := by decide
  rw [SelectQuery.compile] at hsql
  obtain ⟨table, hrendered, hsql⟩ := exists_of_bind_eq_ok hsql
  obtain ⟨chain, hchain, hsql⟩ := exists_of_bind_eq_ok hsql
  obtain rfl := Except.ok.inj hsql
  have hdistinct : P (distinctClause q.distinct) := by
    cases q.distinct with
    | false => exact h.nil
    | true => exact hwords _ (by decide)
  have hjoined : P chain := h.joinChain (fun w hw => hwords w (hjoinWords hw)) hq hchain
  have hgrouping : P (GroupBy.clause q.groupBy) := by
    have hword : P (lit "GROUP BY") := by
      simpa [lit] using h.worded (hwords "GROUP" (by decide)) (hwords "BY" (by decide))
    exact h.clause hword hbodies.groupBy
  have hgroups : P (GroupBy.clauseWithHaving q.groupBy q.having) := by
    refine h.spaced ?_
    simp only [List.forall_mem_cons, List.not_mem_nil, false_imp_iff, implies_true, and_true]
    refine ⟨hgrouping, ?_⟩
    unfold GroupBy.havingClause
    split
    · exact h.nil
    · exact h.clause (hwords _ (by decide)) hbodies.having
  have hfrom : lit "FROM" ≠ [] := by decide
  refine ⟨_, (Text.spaced_cons (by decide) _).trans (if_neg ?_), h.spaced ?_⟩
  · exact Text.spaced_ne_nil (by simp) hfrom
  · simp only [List.forall_mem_cons, List.not_mem_nil, false_imp_iff, implies_true, and_true]
    exact ⟨hdistinct, h.top (hwords _ (by decide)) q.top, hbodies.fields, hwords _ (by decide),
      hbodies.table hrendered, hjoined, h.clause (hwords _ (by decide)) hbodies.filter, hgroups,
      horder, hlimit⟩

end Kept

end SqlCompose
