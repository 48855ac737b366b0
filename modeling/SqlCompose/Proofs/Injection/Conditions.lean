import SqlCompose.Proofs.Injection.Agreement
import SqlCompose.Proofs.Injection.Redaction

/-!
# Conditions agree with their redactions

An operand agrees with its redaction (`Value.agree_quote`), and so does all
that is written with operands: predicates, criteria, fields with their
operands, and conditions of any depth (`Condition.agree_parts`).  The one
assumption is that what is written without quoting is inert.
-/

namespace SqlCompose

open Token Phrase

/-! ## Operands -/

theorem agree_self {ts : List Token} {x : List Text} (h : Clear ts)
    (hliterals : literals ts = x.map some) : Agree (spellAll ts) (spellAll ts) x :=
  ⟨ts, ts, rfl, rfl, h, h, rfl, hliterals⟩

namespace Value

theorem agree_text (t : Text) : Agree (text t).quote (text []).quote [t.withoutNul] := by
  have houtline : ∀ u, outline [ofText u] = [quoted .plain []] := by
    intro u
    unfold ofText
    split <;> rfl
  refine ⟨[ofText t], [ofText []], ?_, ?_, clear_singleton (safe_ofText t),
    clear_singleton (safe_ofText []), ?_, ?_⟩
  · simp [spell_ofText, quote]
  · simp [spell_ofText, quote]
  · rw [houtline, houtline]
  · simp [literals, isLiteral_ofText, content_ofText]

theorem agree_apostrophes {body : Text} (h : ∀ c ∈ body, c ≠ '\'') :
    Agree (apostrophes body) (apostrophes body) [body] := by
  rw [← spellAll_literalPhrase]
  refine agree_self (clear_literalPhrase h) ?_
  change [some (readPlain body)] = [some body]
  rw [readPlain_eq_self h]

theorem agree_bytes (data : List UInt8) :
    Agree (bytes data).quote (bytes data).quote [bytesBody data] := by
  rw [← spellAll_phrases]
  refine agree_self (clear_bytes data) ?_
  rw [phrases, tokensOfAll_append, literals_append, codePhrases, tokensOfAll_leaves,
    literals_codes]
  change [some (readPlain (bytesBody data))] = [some (bytesBody data)]
  rw [readPlain_eq_self fun c => ne_quote_of_mem_bytesBody]

theorem agree_numeral {negative : Prop} [Decidable negative] {t digits : Text}
    (heq : t = (if negative then ['-'] else []) ++ digits)
    (h : ∀ c ∈ digits, isNumeral c = true) : Agree t t [] := by
  rw [heq]
  exact .verbatim (inert_numeral h)

theorem agree_float (x : Binary64) :
    Agree (quoteFloat x) (quoteFloat x) (float x).contents := by
  rw [quoteFloat, contents]
  cases x.view with
  | nan => exact agree_apostrophes (by simp [lit])
  | infinite negative => cases negative <;> exact agree_apostrophes (by simp [lit])
  | finite negative m e =>
    obtain ⟨digits, heq, hdigits⟩ := Binary64.Layout.sql_write_eq negative m e
    exact agree_numeral heq hdigits

theorem agree_calendar {t : Text} (h : ∀ c ∈ t, isCalendarChar c = true) :
    Agree (apostrophes t) (apostrophes t) [t] :=
  agree_apostrophes fun c hc => ne_quote_of_isCalendarChar (h c hc)

mutual

/-- An operand agrees with its redaction. -/
theorem agree_quote : ∀ v : Value, (∀ t ∈ v.verbatims, Inert t) →
    Agree v.quote v.redact.quote v.contents
  | null, _ => .verbatim (by decide)
  | bool b, _ => by cases b <;> exact .verbatim (by decide)
  | int n, _ => by
    obtain ⟨digits, heq, hdigits⟩ := Text.ofInt_eq n.toInt
    exact agree_numeral heq hdigits
  | float x, _ => agree_float x
  | text t, _ => agree_text t
  | bytes data, _ => agree_bytes data
  | date d, _ => agree_calendar fun _ => Date.isCalendarChar_of_mem_render
  | timestamp t, _ => agree_calendar fun _ => Timestamp.isCalendarChar_of_mem_render
  | timestampUtc t, _ => agree_calendar fun c hc => by
      rcases List.mem_append.1 hc with hc | hc
      · exact Timestamp.isCalendarChar_of_mem_render hc
      · fin_cases hc <;> decide
  | list items, h => by
    rw [redact, quote, quote, contents]
    exact (agree_quoteItems items h).joinWith glues_comma
  | raw sql, h => .verbatim (h sql (by simp [verbatims]))

theorem agree_quoteItems : ∀ items : List Value, (∀ t ∈ verbatimsOfItems items, Inert t) →
    AgreeAll (quoteItems items) (quoteItems (redactItems items)) (contentsOfItems items)
  | [], _ => .nil
  | item :: rest, h => by
    have hitem := agree_quote item fun t ht => h t (by simp [verbatimsOfItems, ht])
    rw [redactItems, quoteItems, quoteItems, contentsOfItems, isList_redact]
    refine .cons ?_ (agree_quoteItems rest fun t ht => h t (by simp [verbatimsOfItems, ht]))
    split
    · exact hitem.bracketed
    · exact hitem

end

end Value

/-! ## Predicates -/

namespace Predicate

variable {a b t : Text} {x : List Text}

theorem agree_notWord (negated : Bool) (h : Agree a b x) :
    Agree (notWord negated ++ a) (notWord negated ++ b) x := by
  cases negated with
  | false => exact h
  | true =>
    have hword : Inert "NOT" := by decide
    simpa [notWord, lit] using h.worded hword

/-- A field, a word that may be negated, and what comes behind the word. -/
theorem agree_fieldWord {field word : Text} (hfield : Inert field) (hword : Inert word)
    (negated : Bool) (h : Agree a b x) :
    Agree (field ++ ' ' :: notWord negated ++ (word ++ ' ' :: a))
      (field ++ ' ' :: notWord negated ++ (word ++ ' ' :: b)) x := by
  have hbehind := (agree_notWord negated (h.worded hword)).worded hfield
  simpa using hbehind

/-- A predicate about a field agrees with its redaction. -/
theorem agree_render (p : Predicate) {field : Text} (hfield : Inert field)
    (h : ∀ t ∈ p.test.verbatims, Inert t) :
    Agree (p.render field) (Predicate.render ⟨p.negated, p.test.redact⟩ field)
      p.test.contents := by
  obtain ⟨negated, test⟩ := p
  cases test with
  | compare op v =>
    have hop : Inert op := h op (by simp [Test.verbatims])
    have hv := v.agree_quote fun t ht => h t (by simp [Test.verbatims, ht])
    have hall := agree_notWord negated ((hv.worded hop).worded hfield)
    simpa [render, Test.redact, Test.contents] using hall
  | like v =>
    have hv := v.agree_quote fun t ht => h t (by simp [Test.verbatims, ht])
    have hword : Inert "LIKE" := by decide
    simpa [render, Test.redact, Test.contents, lit] using
      agree_fieldWord hfield hword negated hv
  | among v =>
    have hv := v.agree_quote fun t ht => h t (by simp [Test.verbatims, ht])
    have hword : Inert "IN" := by decide
    simpa [render, Test.redact, Test.contents, lit, Text.bracketed] using
      agree_fieldWord hfield hword negated hv.bracketed
  | isNull =>
    have hnull : Inert "NULL" := by decide
    have hword : Inert "IS" := by decide
    have hall := ((agree_notWord negated (Agree.verbatim hnull)).worded hword).worded hfield
    simpa [render, Test.redact, Test.contents, lit] using hall
  | between v w =>
    have hv := v.agree_quote fun t ht => h t (by simp [Test.verbatims, ht])
    have hw := w.agree_quote fun t ht => h t (by simp [Test.verbatims, ht])
    have hword : Inert "BETWEEN" := by decide
    have hand : Glues " AND " := glues_word "AND" rfl rfl (by decide)
    simpa [render, Test.redact, Test.contents, lit] using
      agree_fieldWord hfield hword negated (hand hv hw)
  | hasRows sql =>
    have hsql : Inert sql := h sql (by simp [Test.verbatims])
    have hword : Inert "EXISTS" := by decide
    have hall := agree_notWord negated ((Agree.verbatim hsql).worded hword)
    simpa [render, Test.redact, Test.contents, lit] using hall

end Predicate

namespace Criterion

/-- What is written of a criterion decides which literals it has. -/
theorem agree_contents {a b : Text} {x : List Text} (h : Agree a b x) :
    Agree a b (if a.isEmpty then [] else x) := by
  split
  · rename_i hempty
    obtain rfl := List.isEmpty_iff.1 hempty
    rwa [h.contents_eq_nil] at h
  · exact h

/-- A criterion agrees with its redaction, whether it is written or not. -/
theorem agree_render (c : Criterion) {context : Option Text}
    (hcontext : ∀ t ∈ context, Inert t) (h : ∀ t ∈ c.verbatims, Inert t) :
    Agree (c.render context) (c.redact.render context) (c.contents context) := by
  have hfield : ∀ t ∈ (c.field.or context).map Text.trim, Inert t := by
    intro t ht
    obtain ⟨u, hu, rfl⟩ := Option.mem_map.1 ht
    refine Inert.trim ?_
    rcases Option.or_eq_some_iff.1 hu with hu | ⟨_, hu⟩
    · exact h u (by simp [verbatims, Option.mem_def.1 hu])
    · exact hcontext u hu
  have hpredicate : ∀ field, Inert field → Agree (c.predicate.render field)
      (c.redact.predicate.render field) c.predicate.test.contents := fun field hinert =>
    c.predicate.agree_render hinert fun t ht => h t (by simp [verbatims, ht])
  have hneeds : c.redact.predicate.test.needsField = c.predicate.test.needsField :=
    Test.needsField_redact _
  have hsame : c.redact.field = c.field := rfl
  rw [contents, render, render, hneeds, hsame]
  split
  · cases hf : (c.field.or context).map Text.trim with
    | none => exact .nil
    | some field =>
      cases field with
      | nil => exact .nil
      | cons char rest =>
        exact agree_contents (hpredicate _ (hfield _ (Option.mem_def.2 hf)))
  · exact agree_contents (hpredicate [] (by decide))

end Criterion

/-! ## Conditions -/

theorem Operand.agree_render (operand : Operand) {field : Text} (hfield : Inert field)
    (h : ∀ t ∈ operand.verbatims, Inert t) :
    Agree (operand.render field) (operand.redact.render field) (operand.contents field) := by
  cases operand with
  | criterion c => exact c.agree_render (by simpa using hfield) h
  | value v =>
    have hv := v.agree_quote h
    have hequal : Inert "=" := by decide
    have hassigned : Agree (field ++ " = " ++ v.quote) (field ++ " = " ++ v.redact.quote)
        v.contents := by
      simpa [lit] using (hv.worded hequal).worded hfield
    cases v with
    | list items =>
      have hword : Inert "IN" := by decide
      have hall := (hv.bracketed.worded hword).worded hfield
      simpa [render, redact, contents, Value.redact, lit, Text.bracketed] using hall
    | raw sql =>
      have hsame : (value (Value.raw sql)).redact = value (Value.raw sql) := rfl
      rw [hsame, render]
      split
      · exact hv
      · exact hassigned
    | null | bool | int | float | text | bytes | date | timestamp | timestampUtc =>
      exact hassigned

namespace Condition

theorem agree_entries (entries : List (Text × Operand))
    (h : ∀ t ∈ entries.flatMap fun (field, operand) => field :: operand.verbatims, Inert t) :
    AgreeAll (entries.map fun (field, operand) => operand.render field)
      ((entries.map fun (field, operand) => (field, operand.redact)).map fun (field, operand) =>
        operand.render field)
      (entries.flatMap fun (field, operand) => operand.contents field) := by
  rw [List.map_map]
  refine AgreeAll.map fun (field, operand) hmem => ?_
  have hentry : ∀ t ∈ field :: operand.verbatims, Inert t := fun t ht =>
    h t (List.mem_flatMap.2 ⟨(field, operand), hmem, ht⟩)
  exact operand.agree_render (hentry field (by simp)) fun t ht => hentry t (by simp [ht])

theorem agree_element {a b : Text} {x : List Text} (h : Agree a b x) :
    AgreeAll (element a) (element b) x := by
  rw [element, element, h.isEmpty_eq]
  split
  · rename_i hempty
    obtain rfl := h.eq_nil_iff.2 (List.isEmpty_iff.1 hempty)
    rw [h.contents_eq_nil]
    exact .nil
  · exact .singleton h

mutual

/-- The elements of a condition agree with those of its redaction, one by one. -/
theorem agree_parts : ∀ c : Condition, (∀ t ∈ c.verbatims, Inert t) →
    AgreeAll c.parts c.redact.parts c.contents
  | sql text, h => agree_element (.verbatim (h text (by simp [verbatims])).trim)
  | criterion c, h => agree_element (c.agree_render (by simp) h)
  | all items, h => by
    rw [redact, parts, parts, contents]
    exact agree_partsOfAll items h
  | any arms, h => by
    rw [redact, parts, parts, contents]
    exact agree_element (agree_armTexts arms h).nonempty.disjunction.trim
  | fields entries, h => by
    rw [redact, parts, parts, contents]
    exact (agree_entries entries h).nonempty

theorem agree_partsOfAll : ∀ items : List Condition, (∀ t ∈ verbatimsOfItems items, Inert t) →
    AgreeAll (partsOfAll items) (partsOfAll (redactItems items)) (contentsOfItems items)
  | [], _ => .nil
  | item :: rest, h => by
    rw [redactItems, partsOfAll, partsOfAll, contentsOfItems]
    exact (agree_parts item fun t ht => h t (by simp [verbatimsOfItems, ht])).append
      (agree_partsOfAll rest fun t ht => h t (by simp [verbatimsOfItems, ht]))

theorem agree_armTexts : ∀ arms : List Condition, (∀ t ∈ verbatimsOfItems arms, Inert t) →
    AgreeAll (armTexts arms) (armTexts (redactItems arms)) (contentsOfItems arms)
  | [], _ => .nil
  | arm :: rest, h => by
    rw [redactItems, armTexts, armTexts, contentsOfItems]
    exact .cons (agree_parts arm fun t ht => h t (by simp [verbatimsOfItems, ht])).conjunction
      (agree_armTexts rest fun t ht => h t (by simp [verbatimsOfItems, ht]))

end

/-- A condition agrees with its redaction. -/
theorem agree_render (c : Condition) (h : ∀ t ∈ c.verbatims, Inert t) :
    Agree c.render c.redact.render c.contents :=
  (c.agree_parts h).conjunction

end Condition

end SqlCompose
