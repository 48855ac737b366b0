import SqlCompose.Proofs.Algebra.Conditions

/-!
# Sentences of conditions

A grammar of what may stand behind `WHERE`.  A sentence is made of atoms with
`AND` and `OR` between and brackets around, an atom is a field with what is
asked of it, and an operand is a literal, or a list of literals and lists
between the brackets of `IN`.  What a subquery is, is left open.

Two things about sentences carry the proofs about conditions.

* A sentence begins with a word that is not `OR`, or with a bracket
  (`Sentence.begins`), so it is never taken for a marked alternative.
* A sentence without the blanks at its end is a sentence (`Sentence.trimEnd`).
-/

namespace SqlCompose.Grammar

open Token Condition

/-! ## Literals -/

/-- One or more decimal digits. -/
def IsDigits (t : Text) : Prop := t ≠ [] ∧ ∀ c ∈ t, c.isDigit = true

/-- A number without a sign: digits, and maybe a point with more digits. -/
inductive Unsigned : Text → Prop
  | whole {digits : Text} (h : IsDigits digits) : Unsigned digits
  | fraction {digits more : Text} (h : IsDigits digits) (hmore : IsDigits more) :
      Unsigned (digits ++ '.' :: more)

/-- A literal that is one value. -/
inductive Scalar : Text → Prop
  | null : Scalar "NULL"
  | bool (b : Bool) : Scalar (if b then "true" else "false")
  | number {t : Text} (h : Unsigned t) : Scalar t
  | negative {t : Text} (h : Unsigned t) : Scalar ('-' :: t)
  | string {body : Text} (h : Enclosed .plain body) : Scalar ('\'' :: body ++ ['\''])
  | escape {body : Text} (h : Enclosed (.escape 'E') body) :
      Scalar ('E' :: '\'' :: body ++ ['\''])
  | bytes {digits : Text} (heven : 2 ∣ digits.length)
      (h : ∀ c ∈ digits, (Text.hexDigit? c).isSome = true) :
      Scalar ("'\\x" ++ digits ++ "'::bytea")

/-- One or more items with commas between.  An item is a literal, or items between
brackets. -/
inductive Items : Text → Prop
  | scalar {t : Text} (h : Scalar t) : Items t
  | group {t : Text} (h : Items t) : Items (Text.bracketed t)
  | append {t u : Text} (ht : Items t) (hu : Items u) : Items (t ++ ", " ++ u)

/-! ## Atoms and sentences -/

/-- The words of the grammar. -/
def keywords : List Text :=
  ["AND", "BETWEEN", "EXISTS", "FALSE", "IN", "IS", "LIKE", "NOT", "NULL", "OR", "TRUE"]

/-- An identifier that is no word of the grammar, in either case. -/
def IsField (t : Text) : Prop :=
  t ≠ [] ∧ (∀ c ∈ t, (c.isAlphanum || c == '_') = true) ∧
    (∀ c ∈ t.head?, c.isDigit = false) ∧ t.upper ∉ keywords

theorem isField_iff_all (t : Text) :
    (t ≠ [] ∧ t.all (fun c => c.isAlphanum || c == '_') = true ∧
      t.head?.all (fun c => !c.isDigit) = true ∧ keywords.contains t.upper = false) ↔
    IsField t := by
  simp [IsField, Option.all_eq_true]

instance (t : Text) : Decidable (IsField t) := decidable_of_iff _ (isField_iff_all t)

/-- What may stand where a predicate has its negation. -/
def negations : List Text := [[], "NOT "]

/-- What a subquery may be: it says something, and without the blanks at its end it is
still a subquery. -/
structure Subqueries where
  mem : Text → Prop
  solid : ∀ {t : Text}, mem t → t.blank = false
  trimEnd : ∀ {t : Text}, mem t → mem t.trimEnd

/-- A predicate without connectives. -/
inductive Atom (sub : Subqueries) : Text → Prop
  | compare {no field op v : Text} (hno : no ∈ negations) (hfield : IsField field)
      (hop : op ∈ comparisonOperators) (hv : Scalar v) :
      Atom sub (no ++ field ++ ' ' :: op ++ ' ' :: v)
  | like {field no v : Text} (hfield : IsField field) (hno : no ∈ negations) (hv : Scalar v) :
      Atom sub (field ++ ' ' :: no ++ "LIKE " ++ v)
  | among {field no v : Text} (hfield : IsField field) (hno : no ∈ negations) (hv : Items v) :
      Atom sub (field ++ ' ' :: no ++ "IN (" ++ v ++ ")")
  | isNull {field no : Text} (hfield : IsField field) (hno : no ∈ negations) :
      Atom sub (field ++ " IS " ++ no ++ "NULL")
  | between {field no v w : Text} (hfield : IsField field) (hno : no ∈ negations)
      (hv : Scalar v) (hw : Scalar w) :
      Atom sub (field ++ ' ' :: no ++ "BETWEEN " ++ v ++ " AND " ++ w)
  | hasRows {no t : Text} (hno : no ∈ negations) (ht : sub.mem t) : Atom sub (no ++ "EXISTS " ++ t)

/-- Atoms with connectives between and brackets around. -/
inductive Sentence (sub : Subqueries) : Text → Prop
  | atom {t : Text} (h : Atom sub t) : Sentence sub t
  | and {t u : Text} (ht : Sentence sub t) (hu : Sentence sub u) : Sentence sub (t ++ " AND " ++ u)
  | or {t u : Text} (ht : Sentence sub t) (hu : Sentence sub u) : Sentence sub (t ++ " OR " ++ u)
  | group {t : Text} (h : Sentence sub t) : Sentence sub (Text.bracketed t)

variable {sub : Subqueries} {field no t : Text}

/-! ## How a sentence begins -/

/-- A text that begins with a word other than `OR`, or with a bracket. -/
def Begins (t : Text) : Prop :=
  (∃ word rest, t = word ++ ' ' :: rest ∧ ' ' ∉ word ∧ word ≠ lit "OR") ∨ ∃ rest, t = '(' :: rest

theorem Begins.append (h : Begins t) (u : Text) : Begins (t ++ u) := by
  rcases h with ⟨word, rest, rfl, hblank, hor⟩ | ⟨rest, rfl⟩
  · exact .inl ⟨word, rest ++ u, by simp, hblank, hor⟩
  · exact .inr ⟨rest ++ u, rfl⟩

/-- Such a text is not marked as an alternative. -/
theorem Begins.not_marked (h : Begins t) : marked t = false := by
  rw [Bool.eq_false_iff]
  intro hmarked
  obtain ⟨r, hr⟩ := List.isPrefixOf_iff_prefix.1 hmarked
  rcases h with ⟨word, rest, rfl, hblank, hor⟩ | ⟨rest, rfl⟩
  · have hcut : ∀ w r : Text, ' ' ∉ w →
        (w ++ ' ' :: r).takeWhile (· ≠ ' ') = w := by
      intro w r hw
      rw [List.takeWhile_append_of_pos (by
        intro c hc
        simpa using fun heq : c = ' ' => hw (heq ▸ hc))]
      simp
    have hwords := congrArg (List.takeWhile (· ≠ ' ')) hr
    rw [hcut word rest hblank, show mark ++ r = lit "OR" ++ ' ' :: r from rfl,
      hcut (lit "OR") r (by decide)] at hwords
    exact hor hwords.symm
  · exact absurd (List.cons.inj hr).1 (by decide)

theorem IsField.begins (h : IsField field) (rest : Text) : Begins (field ++ ' ' :: rest) := by
  obtain ⟨hne, hchars, -, hkeyword⟩ := h
  refine .inl ⟨field, rest, rfl, ?_, ?_⟩
  · intro hblank
    exact absurd (hchars ' ' hblank) (by decide)
  · rintro rfl
    exact hkeyword (by decide)

theorem begins_negation (hno : no ∈ negations) (h : Begins t) : Begins (no ++ t) := by
  rcases List.mem_cons.1 hno with rfl | hno
  · exact h
  · rw [List.mem_singleton.1 hno]
    exact .inl ⟨"NOT", t, rfl, by decide, by decide⟩

theorem Atom.begins (h : Atom sub t) : Begins t := by
  cases h with
  | @compare no field op v hno hfield =>
    have := begins_negation hno (hfield.begins (op ++ ' ' :: v))
    simpa using this
  | like hfield => simpa using hfield.begins _
  | among hfield => simpa using hfield.begins _
  | isNull hfield => simpa [lit] using hfield.begins _
  | between hfield => simpa using hfield.begins _
  | @hasRows no t hno =>
    have hexists : Begins (lit "EXISTS " ++ t) :=
      .inl ⟨"EXISTS", t, rfl, by decide, by decide⟩
    simpa using begins_negation hno hexists

theorem Sentence.begins (h : Sentence sub t) : Begins t := by
  induction h with
  | atom h => exact h.begins
  | and _ _ iht _ | or _ _ iht _ => exact (iht.append _).append _
  | group _ _ => exact .inr ⟨_, rfl⟩

/-! ## How a sentence ends -/

/-- A text that does not end with a blank. -/
def EndsSolid (t : Text) : Prop := ∃ before c, t = before ++ [c] ∧ isBlank c = false

theorem EndsSolid.prepend (h : EndsSolid t) (u : Text) : EndsSolid (u ++ t) := by
  obtain ⟨before, c, rfl, hc⟩ := h
  exact ⟨u ++ before, c, by simp, hc⟩

theorem EndsSolid.trimEnd (h : EndsSolid t) : t.trimEnd = t := by
  obtain ⟨before, c, rfl, hc⟩ := h
  simp [Text.trimEnd, hc]

theorem EndsSolid.solid (h : EndsSolid t) : t.blank = false := by
  obtain ⟨before, c, rfl, hc⟩ := h
  exact blank_eq_false (by simp) hc

theorem IsDigits.endsSolid (h : IsDigits t) : EndsSolid t := by
  have hlast := List.dropLast_append_getLast h.1
  refine ⟨t.dropLast, t.getLast h.1, hlast.symm, isBlank_of_isNumeral ?_⟩
  simp [isNumeral, h.2 _ (List.getLast_mem h.1)]

theorem Unsigned.endsSolid (h : Unsigned t) : EndsSolid t := by
  cases h with
  | whole h => exact h.endsSolid
  | fraction h hmore => exact (hmore.endsSolid.prepend ['.']).prepend _

theorem Scalar.endsSolid (h : Scalar t) : EndsSolid t := by
  cases h with
  | null => exact ⟨"NUL", 'L', rfl, by decide⟩
  | bool b =>
    cases b with
    | false => exact ⟨"fals", 'e', rfl, by decide⟩
    | true => exact ⟨"tru", 'e', rfl, by decide⟩
  | number h => exact h.endsSolid
  | negative h => exact h.endsSolid.prepend ['-']
  | string h => exact ⟨_, '\'', rfl, by decide⟩
  | escape h => exact ⟨_, '\'', rfl, by decide⟩
  | bytes _ h => exact EndsSolid.prepend ⟨"'::byte", 'a', rfl, by decide⟩ _

theorem Items.endsSolid (h : Items t) : EndsSolid t := by
  induction h with
  | scalar h => exact h.endsSolid
  | group _ _ => exact ⟨_, ')', rfl, by decide⟩
  | append _ _ _ ihu => exact ihu.prepend _

/-- An atom does not end with a blank, unless it ends with a subquery. -/
theorem Atom.endsSolid_or (h : Atom sub t) :
    EndsSolid t ∨ ∃ no q, no ∈ negations ∧ sub.mem q ∧ t = no ++ "EXISTS " ++ q := by
  cases h with
  | @compare no field op v hno hfield hop hv =>
    have hends := (hv.endsSolid.prepend [' ']).prepend (no ++ field ++ ' ' :: op)
    exact .inl (by simpa using hends)
  | like hfield hno hv => exact .inl (hv.endsSolid.prepend _)
  | among hfield hno hv => exact .inl ⟨_, ')', rfl, by decide⟩
  | isNull hfield hno => exact .inl (EndsSolid.prepend ⟨"NUL", 'L', rfl, by decide⟩ _)
  | between hfield hno hv hw => exact .inl (hw.endsSolid.prepend _)
  | hasRows hno ht => exact .inr ⟨_, _, hno, ht, rfl⟩

theorem Atom.solid (h : Atom sub t) : t.blank = false := by
  rcases h.endsSolid_or with hsolid | ⟨no, q, -, -, rfl⟩
  · exact hsolid.solid
  · exact blank_eq_false (c := 'E') (by simp [lit]) (by decide)

theorem Atom.trimEnd (h : Atom sub t) : Atom sub t.trimEnd := by
  rcases h.endsSolid_or with hsolid | ⟨no, q, hno, hq, rfl⟩
  · rw [hsolid.trimEnd]
    exact h
  · rw [trimEnd_append _ (sub.solid hq)]
    exact .hasRows hno (sub.trimEnd hq)

theorem Sentence.solid (h : Sentence sub t) : t.blank = false := by
  induction h with
  | atom h => exact h.solid
  | and _ _ iht _ | or _ _ iht _ => exact solid_append (solid_append iht _) _
  | group _ _ => exact blank_eq_false (c := '(') (by simp [Text.bracketed]) (by decide)

/-- A sentence without the blanks at its end is a sentence. -/
theorem Sentence.trimEnd (h : Sentence sub t) : Sentence sub t.trimEnd := by
  induction h with
  | atom h => exact .atom h.trimEnd
  | and ht hu _ ihu =>
    rw [trimEnd_append _ hu.solid]
    exact .and ht ihu
  | or ht hu _ ihu =>
    rw [trimEnd_append _ hu.solid]
    exact .or ht ihu
  | @group t h _ =>
    have hsame : (Text.bracketed t).trimEnd = Text.bracketed t :=
      EndsSolid.trimEnd ⟨'(' :: t, ')', rfl, by decide⟩
    rw [hsame]
    exact .group h

end SqlCompose.Grammar
