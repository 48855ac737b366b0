import SqlCompose.Proofs.Algebra.Narrowing
import SqlCompose.Proofs.Grammar.Numerals

/-!
# Conditions are sentences

A condition without verbatim SQL compiles to a sentence of the grammar or to
nothing, as long as its operands fit where they stand: one literal where a
literal belongs, and a list without empty lists behind `IN`.

* `scalar_quote` and `items_quote` say that operands are quoted as literals.
* `Criterion.render_cases` and `Operand.atom_render` give the atoms.
* `conjunction_cases` and `isPart_of_mem_disjunction` put sentences together;
  the elements of a condition are sentences, some of them behind the mark of
  an alternative (`IsPart`).

Main result: `whereClause_wellFormed`.
-/

namespace SqlCompose

open Token Grammar

/-! ## Operands -/

namespace Value

/-- Whether an operand is neither a list nor raw SQL. -/
def isScalar : Value → Bool
  | list _ | raw _ => false
  | _ => true

/-- Whether an operand is written as one literal. -/
def fitsLiteral : Value → Bool
  | list [item] => item.isScalar
  | v => v.isScalar

mutual

/-- Whether an operand is written as one or more items: no list in it is empty. -/
def fitsItems : Value → Bool
  | list items => !items.isEmpty && allFitItems items
  | v => v.isScalar

/-- Whether all operands are written as items. -/
def allFitItems : List Value → Bool
  | [] => true
  | item :: rest => fitsItems item && allFitItems rest

end

theorem scalar_apostrophes {body : Text} (h : ∀ c ∈ body, c ≠ '\'') : Scalar (apostrophes body) :=
  .string (.plain_of_forall h)

theorem hexDigit?_digitChar : ∀ k < 16, (Text.hexDigit? (Nat.digitChar k)).isSome = true := by
  decide

theorem fixedDigits_two (n : Nat) :
    Text.fixedDigits 16 2 n = [Nat.digitChar (n / 16 % 16), Nat.digitChar (n % 16)] := by
  simp [Text.fixedDigits]

theorem scalar_quoteBytes (data : List UInt8) : Scalar (quoteBytes data) := by
  have heven : 2 ∣ (data.flatMap fun b => Text.fixedDigits 16 2 b.toNat).length := by
    refine ⟨data.length, ?_⟩
    simp [List.length_flatMap, Nat.mul_comm]
  have hhex : ∀ c ∈ data.flatMap fun b => Text.fixedDigits 16 2 b.toNat,
      (Text.hexDigit? c).isSome = true := by
    intro c hc
    obtain ⟨b, -, hc⟩ := List.mem_flatMap.1 hc
    rw [fixedDigits_two, List.mem_cons, List.mem_singleton] at hc
    rcases hc with rfl | rfl <;> exact hexDigit?_digitChar _ (Nat.mod_lt _ (by decide))
  simpa [quoteBytes, apostrophes, lit] using Scalar.bytes heven hhex

/-- A scalar is one literal. -/
theorem scalar_quote : ∀ v : Value, v.isScalar = true → Scalar v.quote
  | null, _ => .null
  | bool b, _ => .bool b
  | int n, _ => scalar_ofInt n.toInt
  | float x, _ => by
    rw [quote, quoteFloat]
    cases hview : x.view with
    | nan => exact scalar_apostrophes (by simp [lit])
    | infinite negative => cases negative <;> exact scalar_apostrophes (by simp [lit])
    | finite negative m e =>
      exact Binary64.scalar_write negative e (Binary64.significand_lt_of_view hview)
  | text t, _ => by
    rw [quote]
    unfold Text.quote
    split
    · exact .escape (.flatMap fun c _ => enclosed_escapePiece c)
    · exact .string (.flatMap fun c _ => enclosed_plainPiece c)
  | bytes data, _ => scalar_quoteBytes data
  | date d, _ => scalar_apostrophes fun _ hc =>
      ne_quote_of_isCalendarChar (Date.isCalendarChar_of_mem_render hc)
  | timestamp t, _ => scalar_apostrophes fun _ hc =>
      ne_quote_of_isCalendarChar (Timestamp.isCalendarChar_of_mem_render hc)
  | timestampUtc t, _ => scalar_apostrophes fun c hc => by
      rcases List.mem_append.1 hc with hc | hc
      · exact ne_quote_of_isCalendarChar (Timestamp.isCalendarChar_of_mem_render hc)
      · fin_cases hc <;> decide
  | list items, h => by simp [isScalar] at h
  | raw sql, h => by simp [isScalar] at h

theorem scalar_quote_of_fitsLiteral {v : Value} (h : v.fitsLiteral = true) : Scalar v.quote := by
  unfold fitsLiteral at h
  split at h
  · rename_i item
    have hlist : item.isList = false := by cases item <;> first | rfl | simp [isScalar] at h
    simpa [quote, quoteItems, hlist] using scalar_quote item h
  · exact scalar_quote _ h

/-- Items with commas between are items. -/
theorem items_joinWith {texts : List Text} (hne : texts ≠ []) (h : ∀ t ∈ texts, Items t) :
    Items (Text.joinWith ", " texts) := by
  induction texts with
  | nil => exact absurd rfl hne
  | cons t rest ih =>
    have ht := h t (by simp)
    cases rest with
    | nil => simpa using ht
    | cons u rest =>
      have hrest := ih (by simp) fun v hv => h v (by simp [hv])
      simpa [Text.joinWith] using Items.append ht hrest

mutual

/-- A list without empty lists is one or more items. -/
theorem items_quote : ∀ v : Value, v.fitsItems = true → Items v.quote
  | list items, h => by
    rw [fitsItems, Bool.and_eq_true] at h
    rw [quote]
    refine items_joinWith ?_ (items_of_mem_quoteItems items h.2)
    cases items with
    | nil => simp at h
    | cons item rest => simp [quoteItems]
  | raw sql, h => by simp [fitsItems, isScalar] at h
  | null, _ | bool _, _ | int _, _ | float _, _ | text _, _ | bytes _, _ | date _, _
  | timestamp _, _ | timestampUtc _, _ => .scalar (scalar_quote _ rfl)

theorem items_of_mem_quoteItems : ∀ items : List Value, allFitItems items = true →
    ∀ t ∈ quoteItems items, Items t
  | [], _, t, ht => by simp [quoteItems] at ht
  | item :: rest, h, t, ht => by
    rw [allFitItems, Bool.and_eq_true] at h
    have hitem := items_quote item h.1
    rw [quoteItems, List.mem_cons] at ht
    rcases ht with rfl | ht
    · split
      · exact .group hitem
      · exact hitem
    · exact items_of_mem_quoteItems rest h.2 t ht

end

end Value

/-! ## Atoms -/

variable {sub : Subqueries} {field : Text}

/-- A comparison by an operator, with operands that fit. -/
def Test.Conforms (sub : Subqueries) : Test → Prop
  | compare op v => op ∈ comparisonOperators ∧ v.fitsLiteral = true
  | like v => v.fitsLiteral = true
  | among v => v.fitsItems = true
  | isNull => True
  | between v w => v.fitsLiteral = true ∧ w.fitsLiteral = true
  | hasRows q => sub.mem q

/-- A test that conforms, of an identifier if the criterion has a field at all.  A test that
lacks its field is not written, whatever its operands are. -/
def Criterion.Conforms (sub : Subqueries) (context : Option Text) (c : Criterion) : Prop :=
  match c.field.or context with
  | some field => IsField field ∧ c.predicate.test.Conforms sub
  | none => c.predicate.test.needsField = true ∨ c.predicate.test.Conforms sub

/-- What an identifier is listed with. -/
def Operand.Conforms (sub : Subqueries) (field : Text) : Operand → Prop
  | value v => IsField field ∧ v.fitsItems = true
  | criterion c => c.Conforms sub (some field)

theorem isBlank_of_isAlphanum {c : Char} (h : c.isAlphanum = true) : isBlank c = false := by
  have hrange : 48 ≤ c.toNat ∧ c.toNat ≤ 122 := by
    have hval : c.toNat = c.val.toNat := rfl
    simp only [Char.isAlphanum, Char.isAlpha, Char.isUpper, Char.isLower, Char.isDigit,
      Bool.or_eq_true, Bool.and_eq_true, decide_eq_true_eq, UInt32.le_iff_toNat_le, ge_iff_le] at h
    simp at h
    omega
  simp only [isBlank, Bool.or_eq_false_iff, Bool.and_eq_false_iff, decide_eq_false_iff_not,
    beq_eq_false_iff_ne]
  omega

theorem Grammar.IsField.trim_eq (h : IsField field) : field.trim = field := by
  have hblank : ∀ c ∈ field, isBlank c = false := by
    intro c hc
    rcases Bool.or_eq_true_iff.1 (h.2.1 c hc) with hword | hunderscore
    · exact isBlank_of_isAlphanum hword
    · rw [beq_iff_eq.1 hunderscore]
      decide
  exact dropEnds_eq_self (fun c hc => hblank c (List.mem_of_mem_head? hc))
    fun c hc => hblank c (List.mem_of_mem_getLast? hc)

theorem notWord_mem_negations (negated : Bool) : Predicate.notWord negated ∈ negations := by
  cases negated <;> simp [Predicate.notWord, negations]

/-- A predicate is an atom; only one about a subquery needs no field. -/
theorem Predicate.atom_render (p : Predicate) (h : p.test.Conforms sub)
    (hfield : p.test.needsField = true → IsField field) : Atom sub (p.render field) := by
  obtain ⟨negated, test⟩ := p
  have hno := notWord_mem_negations negated
  cases test with
  | compare op v => exact .compare hno (hfield rfl) h.1 (Value.scalar_quote_of_fitsLiteral h.2)
  | like v => exact .like (hfield rfl) hno (Value.scalar_quote_of_fitsLiteral h)
  | among v => exact .among (hfield rfl) hno (Value.items_quote v h)
  | isNull => exact .isNull (hfield rfl) hno
  | between v w =>
    exact .between (hfield rfl) hno (Value.scalar_quote_of_fitsLiteral h.1)
      (Value.scalar_quote_of_fitsLiteral h.2)
  | hasRows q => exact .hasRows hno h

/-- A criterion is an atom, or nothing where it has no field. -/
theorem Criterion.render_cases {c : Criterion} {context : Option Text}
    (h : c.Conforms sub context) : c.render context = [] ∨ Atom sub (c.render context) := by
  unfold Conforms at h
  unfold render
  cases hbound : c.field.or context with
  | none =>
    rw [hbound] at h
    by_cases hneeds : c.predicate.test.needsField = true
    · rw [if_pos hneeds]
      exact .inl rfl
    · rw [if_neg hneeds]
      have htest := h.resolve_left hneeds
      exact .inr (c.predicate.atom_render htest fun h => absurd h hneeds)
  | some field =>
    rw [hbound] at h
    obtain ⟨hfield, htest⟩ := h
    by_cases hneeds : c.predicate.test.needsField = true
    · rw [if_pos hneeds, Option.map_some, hfield.trim_eq]
      split
      · rename_i char rest heq
        obtain rfl := Option.some.inj heq
        exact .inr (c.predicate.atom_render htest fun _ => hfield)
      · exact .inl rfl
    · rw [if_neg hneeds]
      exact .inr (c.predicate.atom_render htest fun h => absurd h hneeds)

theorem Operand.render_scalar {v : Value} (h : v.isScalar = true) :
    (Operand.value v).render field = field ++ " = " ++ v.quote := by
  cases v with
  | list | raw => simp [Value.isScalar] at h
  | _ => rfl

/-- What a field is listed with is an atom, or nothing. -/
theorem Operand.render_cases {operand : Operand} (h : operand.Conforms sub field) :
    operand.render field = [] ∨ Atom sub (operand.render field) := by
  cases operand with
  | criterion c => exact c.render_cases h
  | value v =>
    obtain ⟨hfield, hfits⟩ := h
    refine .inr ?_
    by_cases hscalar : v.isScalar = true
    · have hatom : Atom sub ([] ++ field ++ ' ' :: "=" ++ ' ' :: v.quote) :=
        .compare (by simp [negations]) hfield (by simp [comparisonOperators])
          (Value.scalar_quote v hscalar)
      rw [render_scalar hscalar]
      simpa [lit] using hatom
    · obtain ⟨items, rfl⟩ : ∃ items, v = .list items := by
        cases v with
        | list items => exact ⟨items, rfl⟩
        | _ => simp [Value.fitsItems, Value.isScalar] at hfits hscalar
      have hatom : Atom sub (field ++ ' ' :: [] ++ "IN (" ++ (Value.list items).quote ++ ")") :=
        .among hfield (by simp [negations]) (Value.items_quote _ hfits)
      simpa [render, lit] using hatom

/-! ## Elements of conditions -/

namespace Condition

/-- An element that is a sentence, or one behind the mark of an alternative. -/
def IsPart (sub : Subqueries) (part : Text) : Prop :=
  Sentence sub part ∨ ∃ s, part = mark ++ s ∧ Sentence sub s

variable {t : Text} {parts : List Text}

/-- Elements behind a sentence are sentences with a connective before each. -/
theorem sentence_chain {unmarked : Text}
    (hjoin : ∀ t u, Sentence sub t → Sentence sub u → Sentence sub (t ++ unmarked ++ u))
    (ht : Sentence sub t) (h : ∀ part ∈ parts, IsPart sub part) :
    Sentence sub (t ++ chain unmarked parts) := by
  induction parts generalizing t with
  | nil => simpa [chain] using ht
  | cons part rest ih =>
    have hnext : Sentence sub (t ++ (joiner part unmarked ++ part)) := by
      rcases h part (by simp) with hpart | ⟨s, rfl, hs⟩
      · rw [joiner, hpart.begins.not_marked, if_neg (by simp), ← List.append_assoc]
        exact hjoin t part ht hpart
      · rw [joiner, if_pos (by simp [marked])]
        simpa [mark, lit] using Sentence.or ht hs
    have hall := ih hnext fun p hp => h p (by simp [hp])
    simpa [chain] using hall

/-- Elements are joined to a sentence, if there are any. -/
theorem conjunction_cases (h : ∀ part ∈ parts, IsPart sub part) :
    conjunction parts = [] ∨ Sentence sub (conjunction parts) := by
  cases parts with
  | nil => exact .inl rfl
  | cons first rest =>
    rw [List.forall_mem_cons] at h
    have hand : ∀ t u, Sentence sub t → Sentence sub u → Sentence sub (t ++ " AND " ++ u) :=
      fun _ _ => .and
    refine .inr ?_
    rcases h.1 with hfirst | ⟨s, rfl, hs⟩
    · have hall := sentence_chain hand hfirst h.2
      have hnone : mark.isPrefixOf? (first ++ chain " AND " rest) = none := by
        rw [← Option.not_isSome_iff_eq_none, List.isSome_isPrefixOf?_eq_isPrefixOf]
        exact Bool.eq_false_iff.1 hall.begins.not_marked
      rw [conjunction, hnone]
      exact hall
    · have hall := sentence_chain hand hs h.2
      have hsome : mark.isPrefixOf? (mark ++ s ++ chain " AND " rest) =
          some (s ++ chain " AND " rest) := rfl
      rw [conjunction, hsome]
      exact hall

/-- The arms of a disjunction are one element, if there are any. -/
theorem isPart_of_mem_disjunction {arms : List Text} (h : ∀ arm ∈ arms, Sentence sub arm) :
    ∀ part ∈ element (disjunction arms).trim, IsPart sub part := by
  match arms, h with
  | [], _ => simp [disjunction, element, Text.trim, Text.trimEnd, Text.trimStart]
  | [arm], h =>
    have harm := h arm (by simp)
    rw [disjunction, trim_mark_append harm.solid, element_eq_singleton (by simp [mark, lit])]
    intro part hpart
    rw [List.mem_singleton.1 hpart]
    exact .inr ⟨_, rfl, harm.trimEnd⟩
  | first :: second :: rest, h =>
    rw [List.forall_mem_cons] at h
    have hor : ∀ t u, Sentence sub t → Sentence sub u → Sentence sub (t ++ " OR " ++ u) :=
      fun _ _ => .or
    have hall := sentence_chain hor h.1 fun arm harm => .inl (h.2 arm harm)
    rw [disjunction, trim_bracketed, element_eq_singleton (by simp [Text.bracketed])]
    · intro part hpart
      rw [List.mem_singleton.1 hpart]
      exact .inl (.group hall)
    · simp

mutual

/-- A condition without verbatim SQL, of which every criterion and operand conforms. -/
def Conforms (sub : Subqueries) : Condition → Prop
  | sql _ => False
  | criterion c => c.Conforms sub none
  | all items => ConformsAll sub items
  | any arms => ConformsAll sub arms
  | fields entries => ∀ entry ∈ entries, entry.2.Conforms sub entry.1

/-- Conditions of which every criterion and operand conforms. -/
def ConformsAll (sub : Subqueries) : List Condition → Prop
  | [] => True
  | item :: rest => Conforms sub item ∧ ConformsAll sub rest

end

mutual

/-- The elements of a condition that conforms are sentences, or behind a mark. -/
theorem isPart_of_mem_parts : ∀ c : Condition, c.Conforms sub → ∀ part ∈ c.parts, IsPart sub part
  | sql text, h => absurd h id
  | criterion c, h => by
    rcases c.render_cases h with hnil | hatom
    · simp [Condition.parts, hnil, element]
    · rw [Condition.parts, element_eq_singleton (ne_nil_of_blank hatom.solid)]
      intro part hpart
      rw [List.mem_singleton.1 hpart]
      exact .inl (.atom hatom)
  | all items, h => by
    rw [Condition.parts]
    exact isPart_of_mem_partsOfAll items h
  | any arms, h => by
    rw [Condition.parts]
    refine isPart_of_mem_disjunction fun arm harm => ?_
    obtain ⟨hmem, hne⟩ := Text.mem_nonempty.1 harm
    exact (sentence_of_mem_armTexts arms h arm hmem).resolve_left hne
  | fields entries, h => by
    intro part hpart
    obtain ⟨hmem, hne⟩ := Text.mem_nonempty.1 hpart
    obtain ⟨⟨field, operand⟩, hentry, rfl⟩ := List.mem_map.1 hmem
    exact .inl (.atom ((Operand.render_cases (h _ hentry)).resolve_left hne))

theorem isPart_of_mem_partsOfAll : ∀ items : List Condition, ConformsAll sub items →
    ∀ part ∈ partsOfAll items, IsPart sub part
  | [], _, part, hpart => by simp [partsOfAll] at hpart
  | item :: rest, h, part, hpart => by
    rw [partsOfAll, List.mem_append] at hpart
    exact hpart.elim (isPart_of_mem_parts item h.1 part) (isPart_of_mem_partsOfAll rest h.2 part)

theorem sentence_of_mem_armTexts : ∀ arms : List Condition, ConformsAll sub arms →
    ∀ arm ∈ armTexts arms, arm = [] ∨ Sentence sub arm
  | [], _, arm, harm => by simp [armTexts] at harm
  | item :: rest, h, arm, harm => by
    rw [armTexts, List.mem_cons] at harm
    rcases harm with rfl | harm
    · exact conjunction_cases (isPart_of_mem_parts item h.1)
    · exact sentence_of_mem_armTexts rest h.2 arm harm

end

/-- A condition that conforms is a sentence behind `WHERE`, or nothing. -/
theorem whereClause_wellFormed {c : Condition} (h : c.Conforms sub) :
    whereClause (some c) = [] ∨ ∃ s, Sentence sub s ∧ whereClause (some c) = "WHERE " ++ s := by
  rcases conjunction_cases (isPart_of_mem_parts c h) with hnil | hsentence
  · left
    simp [whereClause, clause, render, hnil, Text.clause]
  · right
    have hne : c.render.isEmpty = false :=
      List.isEmpty_eq_false_iff.2 (ne_nil_of_blank hsentence.solid)
    refine ⟨c.render, hsentence, ?_⟩
    simp [whereClause, clause, Text.clause, hne, lit]

/-- Texts between brackets. -/
def bracketedSubqueries : Subqueries where
  mem t := ∃ body, t = Text.bracketed body
  solid := by
    rintro t ⟨body, rfl⟩
    exact blank_eq_false (c := '(') (by simp [Text.bracketed]) (by decide)
  trimEnd := by
    rintro t ⟨body, rfl⟩
    exact ⟨body, EndsSolid.trimEnd ⟨'(' :: body, ')', rfl, by decide⟩⟩

/-- Lists in a list, a fraction, text that needs escapes, an arm that says nothing as it lacks
its field, a list of one member where a literal belongs, and a subquery. -/
def mixedOperands : Condition :=
  all [fields [("id", .value (.list [.int 1, .list [.float ⟨0x3FB999999999999A⟩, .null]])),
      ("note", .value (.text "it's\\")), ("tag", .criterion (.unbound true (.like (.text "x%"))))],
    any [criterion (.unbound false (.among (.list []))), criterion ⟨some "a",
      ⟨true, .between (.int (-1)) (.list [.bool true])⟩⟩],
    any [fields [("b", .value (.bytes [0, 255]))], criterion (.unbound true (.hasRows "(SELECT 1)"))]]

theorem whereClause_wellFormed_mixed :
    whereClause (some mixedOperands) = lit ("WHERE id IN (1, (0.1, NULL)) AND note = E'it''s\\\\' AND " ++
      "tag NOT LIKE 'x%' OR a NOT BETWEEN -1 AND true AND (b = '\\x00ff'::bytea OR NOT EXISTS (SELECT 1))") ∧
    ∃ s, Sentence bracketedSubqueries s ∧ whereClause (some mixedOperands) = "WHERE " ++ s := by
  have hsubquery : bracketedSubqueries.mem "(SELECT 1)" := ⟨"SELECT 1", rfl⟩
  have hfields : ∀ field ∈ [lit "id", lit "note", lit "tag", lit "a", lit "b"], IsField field := by
    decide +kernel
  simp only [List.forall_mem_cons] at hfields
  obtain ⟨hid, hnote, htag, ha, hb, -⟩ := hfields
  have hconforms : mixedOperands.Conforms bracketedSubqueries := by
    refine ⟨?_, ⟨.inl rfl, ⟨ha, rfl, rfl⟩, trivial⟩, ⟨?_, .inr hsubquery, trivial⟩, trivial⟩
    · simp only [Conforms, List.forall_mem_cons]
      exact ⟨⟨hid, rfl⟩, ⟨hnote, rfl⟩, ⟨htag, rfl⟩, by simp⟩
    · simp only [Conforms, List.forall_mem_cons]
      exact ⟨⟨hb, rfl⟩, by simp⟩
  refine ⟨by decide +kernel, ?_⟩
  exact (whereClause_wellFormed hconforms).resolve_left (by decide +kernel)

/-! ## Operands that do not fit -/

/-- A sentence that begins without a bracket and has none of the letters that the other
words are told by is a comparison or an `IN`. -/
theorem compare_or_among {t : Text} (h : Sentence sub t) (hhead : t.head? ≠ some '(')
    (hletters : ∀ c ∈ lit "DRLUBE", c ∉ t) :
    (∃ no field op v, no ∈ negations ∧ IsField field ∧ op ∈ comparisonOperators ∧ Scalar v ∧
      t = no ++ field ++ ' ' :: op ++ ' ' :: v) ∨
    ∃ field no v, IsField field ∧ Items v ∧ t = field ++ ' ' :: no ++ "IN (" ++ v ++ ")" := by
  cases h with
  | and _ _ => exact absurd (by simp [lit]) (hletters 'D' (by decide))
  | or _ _ => exact absurd (by simp [lit]) (hletters 'R' (by decide))
  | group _ => exact absurd rfl hhead
  | atom h =>
    cases h with
    | compare hno hfield hop hv => exact .inl ⟨_, _, _, _, hno, hfield, hop, hv, rfl⟩
    | among hfield _ hv => exact .inr ⟨_, _, _, hfield, hv, rfl⟩
    | like _ _ _ => exact absurd (by simp [lit]) (hletters 'L' (by decide))
    | isNull _ _ => exact absurd (by simp [lit]) (hletters 'U' (by decide))
    | between _ _ _ _ => exact absurd (by simp [lit]) (hletters 'B' (by decide))
    | hasRows _ _ => exact absurd (by simp [lit]) (hletters 'E' (by decide))

theorem not_sentence_emptyList : ¬Sentence sub "a IN ()" := by
  intro h
  rcases compare_or_among h (by decide) (by simp [lit]) with
    ⟨no, field, op, v, -, -, hop, -, ht⟩ | ⟨field, no, v, hfield, hv, ht⟩
  · have hsymbol : ∀ op ∈ comparisonOperators, ∃ c ∈ op, c ∉ lit "a IN ()" := by
      simp [comparisonOperators, lit]
    obtain ⟨c, hc, hnot⟩ := hsymbol op hop
    exact hnot (by rw [ht]; simp [hc])
  · -- the field and the brackets leave no room for an item
    have hlength := congrArg List.length ht
    have hfield := List.length_pos_of_ne_nil hfield.1
    have hv := List.length_pos_of_ne_nil (ne_nil_of_blank hv.endsSolid.solid)
    simp [lit] at hlength
    omega

/-- A literal with a comma in it is quoted. -/
theorem quote_mem_of_comma_mem {v : Text} (h : Scalar v) (hcomma : ',' ∈ v) : '\'' ∈ v := by
  have hdigits : ∀ digits : Text, IsDigits digits → ',' ∉ digits := fun digits h hmem =>
    absurd (h.2 ',' hmem) (by decide)
  have hunsigned : ∀ t : Text, Unsigned t → ',' ∉ t := by
    intro t ht hmem
    cases ht with
    | whole h => exact hdigits _ h hmem
    | fraction h hmore =>
      rcases List.mem_append.1 hmem with hmem | hmem
      · exact hdigits _ h hmem
      · exact hdigits _ hmore (by simpa using hmem)
  cases h with
  | null => exact absurd hcomma (by decide)
  | bool b => cases b <;> exact absurd hcomma (by decide)
  | number h => exact absurd hcomma (hunsigned _ h)
  | negative h => exact absurd (by simpa using hcomma) (hunsigned _ h)
  | string | escape | bytes => simp [lit]

theorem not_sentence_twoLiterals : ¬Sentence sub "a = 1, 2" := by
  intro h
  rcases compare_or_among h (by decide) (by simp [lit]) with
    ⟨no, field, op, v, hno, hfield, hop, hv, ht⟩ | ⟨field, no, v, -, -, ht⟩
  · have hcomma : ',' ∈ no ++ field ++ ' ' :: op ++ ' ' :: v := by
      rw [← ht]
      simp [lit]
    have hnegation : ',' ∉ no := by
      rcases List.mem_cons.1 hno with rfl | hno
      · simp
      · rw [List.mem_singleton.1 hno]
        decide
    have hoperator : ',' ∉ op := by
      revert op
      simp [comparisonOperators, lit]
    have hvalue : ',' ∈ v := by
      simp only [List.mem_append, List.mem_cons] at hcomma
      rcases hcomma with ((hmem | hmem) | hmem | hmem) | hmem | hmem
      · exact absurd hmem hnegation
      · exact absurd (hfield.2.1 ',' hmem) (by decide)
      · exact absurd hmem (by decide)
      · exact absurd hmem hoperator
      · exact absurd hmem (by decide)
      · exact hmem
    have hquote : '\'' ∈ lit "a = 1, 2" := by
      rw [ht]
      simp [quote_mem_of_comma_mem hv hvalue]
    exact absurd hquote (by simp [lit])
  · have hin : 'I' ∈ lit "a = 1, 2" := by
      rw [ht]
      simp [lit]
    exact absurd hin (by simp [lit])

/-- An empty list leaves nothing between the brackets of `IN`, and a list where a literal
belongs leaves an expression over. -/
theorem whereClause_illFormed :
    (whereClause (some (fields [("a", .value (.list []))])) = lit "WHERE a IN ()" ∧
      ¬Sentence bracketedSubqueries "a IN ()") ∧
    (whereClause (some (fields [("a", .criterion (.unbound false
        (.compare "=" (.list [.int 1, .int 2]))))])) = lit "WHERE a = 1, 2" ∧
      ¬Sentence bracketedSubqueries "a = 1, 2") :=
  ⟨⟨by decide, not_sentence_emptyList⟩, ⟨by decide, not_sentence_twoLiterals⟩⟩

end Condition

end SqlCompose
