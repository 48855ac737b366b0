import SqlCompose.Proofs.Reading.Charset
import SqlCompose.Proofs.Reading.Clear
import SqlCompose.Proofs.Reading.Phrase

/-!
# Operands as phrases

`Value.phrases` says what an operand is made of: text, bytes, days, times and
the special floating-point data are one literal each, a list inside a list
stands between brackets, and all else is written without quotes.
`spellAll_phrases` says that this is how the library quotes.

An operand whose raw SQL is inert is clear (`clear_phrases`), so it keeps its
borders, and one without raw SQL has matched brackets (`proper_phrases`).
-/

namespace SqlCompose

open Token Phrase

/-! ## Pieces with a separator between -/

theorem Token.spellAll_intercalate (sep : List Token) (pieces : List (List Token)) :
    spellAll (sep.intercalate pieces) = (spellAll sep).intercalate (pieces.map spellAll) := by
  induction pieces with
  | nil => rfl
  | cons piece rest ih =>
    cases rest with
    | nil => simp
    | cons next rest => simpa using ih

theorem Phrase.tokensOfAll_intercalate (sep : List Phrase) (pieces : List (List Phrase)) :
    tokensOfAll (sep.intercalate pieces) =
      (tokensOfAll sep).intercalate (pieces.map tokensOfAll) := by
  induction pieces with
  | nil => rfl
  | cons piece rest ih =>
    cases rest with
    | nil => simp
    | cons next rest => simpa using ih

namespace Value

/-- A plain literal whose body needs no care. -/
def literalPhrase (body : Text) : List Phrase := [leaf (quoted .plain body)]

/-- The body of the literal of bytes. -/
def bytesBody (data : List UInt8) : Text :=
  "\\x" ++ data.flatMap fun b => Text.fixedDigits 16 2 b.toNat

/-- A text of which every character is a leaf. -/
def codePhrases (t : Text) : List Phrase := leaves (codes t)

mutual

/-- What an operand is made of. -/
def phrases : Value → List Phrase
  | null => codePhrases "NULL"
  | bool b => codePhrases (if b then "true" else "false")
  | int n => codePhrases (Text.ofInt n.toInt)
  | float x =>
    match x.view with
    | .nan => literalPhrase "NaN"
    | .infinite negative => literalPhrase (if negative then "-Infinity" else "Infinity")
    | .finite negative m e => codePhrases (Binary64.Layout.sql.write negative m e)
  | text t => [leaf (ofText t)]
  | bytes data =>
    literalPhrase (bytesBody data) ++ codePhrases "::bytea"
  | date d => literalPhrase d.render
  | timestamp t => literalPhrase t.render
  | timestampUtc t => literalPhrase (t.render ++ "+00:00")
  | list items => (codePhrases ", ").intercalate (phrasesOfItems items)
  | raw sql => codePhrases sql

/-- What the members of a list are made of, one by one. -/
def phrasesOfItems : List Value → List (List Phrase)
  | [] => []
  | item :: rest =>
    (if item.isList then [group (phrases item)] else phrases item) :: phrasesOfItems rest

end

theorem spellAll_literalPhrase (body : Text) :
    spellAll (tokensOfAll (literalPhrase body)) = apostrophes body := by
  simp [literalPhrase, tokensOfAll, tokens, spell, Quoting.lead, Quoting.delimiter, apostrophes]

theorem spellAll_codePhrases (t : Text) : spellAll (tokensOfAll (codePhrases t)) = t := by
  simp [codePhrases]

mutual

/-- The phrases of an operand are written as the operand is quoted. -/
theorem spellAll_phrases : ∀ v : Value, spellAll (tokensOfAll v.phrases) = v.quote
  | null => by rw [phrases, spellAll_codePhrases, quote]
  | bool b => by rw [phrases, spellAll_codePhrases, quote]
  | int n => by rw [phrases, spellAll_codePhrases, quote]
  | float x => by
    rw [phrases, quote, quoteFloat]
    cases x.view with
    | nan => exact spellAll_literalPhrase _
    | infinite negative => exact spellAll_literalPhrase _
    | finite negative m e => exact spellAll_codePhrases _
  | text t => by simp [phrases, tokensOfAll, tokens, spell_ofText, quote]
  | bytes data => by
    rw [phrases, tokensOfAll_append, spellAll_append, spellAll_literalPhrase, spellAll_codePhrases,
      quote, quoteBytes, bytesBody]
  | date d => by rw [phrases, spellAll_literalPhrase, quote]
  | timestamp t => by rw [phrases, spellAll_literalPhrase, quote]
  | timestampUtc t => by rw [phrases, spellAll_literalPhrase, quote]
  | list items => by
    rw [phrases, tokensOfAll_intercalate, spellAll_intercalate, spellAll_codePhrases, List.map_map,
      spellAll_phrasesOfItems items, quote]
  | raw sql => by rw [phrases, spellAll_codePhrases, quote]

theorem spellAll_phrasesOfItems : ∀ items : List Value,
    (phrasesOfItems items).map (spellAll ∘ tokensOfAll) = quoteItems items
  | [] => rfl
  | item :: rest => by
    have hitem := spellAll_phrases item
    rw [phrasesOfItems, List.map_cons, spellAll_phrasesOfItems rest, quoteItems]
    congr 1
    split
    · simp [tokensOfAll, tokens, spell, hitem, Text.bracketed]
    · exact hitem

end

/-! ## Verbatim text in operands -/

mutual

/-- The raw SQL in an operand, at any depth. -/
def verbatims : Value → List Text
  | raw sql => [sql]
  | list items => verbatimsOfItems items
  | _ => []

/-- The raw SQL in several operands. -/
def verbatimsOfItems : List Value → List Text
  | [] => []
  | item :: rest => verbatims item ++ verbatimsOfItems rest

end

/-- No raw SQL stands in an operand, at any depth. -/
def RawFree (v : Value) : Prop := v.verbatims = []

instance (v : Value) : Decidable v.RawFree := inferInstanceAs (Decidable (_ = _))

theorem verbatimsOfItems_eq_flatMap (items : List Value) :
    verbatimsOfItems items = items.flatMap verbatims := by
  induction items with
  | nil => rfl
  | cons item rest ih => simp [verbatimsOfItems, ih]

theorem rawFree_list_iff {items : List Value} :
    (list items).RawFree ↔ ∀ item ∈ items, item.RawFree := by
  simp [RawFree, verbatims, verbatimsOfItems_eq_flatMap]

/-! ## Operands are clear -/

theorem inert_numeral {negative : Prop} [Decidable negative] {digits : Text}
    (h : ∀ c ∈ digits, isNumeral c = true) :
    Inert ((if negative then ['-'] else []) ++ digits) := by
  have hne : ∀ c ∈ digits, isInert c = true ∧ c ≠ '-' ∧ c ≠ '/' := by
    intro c hc
    have hnumeral := h c hc
    refine ⟨?_, ?_, ?_⟩
    · by_contra hinert
      have hcases : c = '\'' ∨ c = '"' ∨ c = '\\' ∨ c = '$' := by
        simpa [isInert, or_iff_not_imp_left] using hinert
      rcases hcases with rfl | rfl | rfl | rfl <;> simp [isNumeral] at hnumeral
    · rintro rfl
      simp [isNumeral] at hnumeral
    · rintro rfl
      simp [isNumeral] at hnumeral
  -- the minus sign stands only at the front, so it has no second one beside it
  have hchain : digits.IsChain fun a b => opensComment a b = false := by
    refine List.Pairwise.isChain (List.pairwise_of_forall_mem_list ?_)
    intro a ha b _
    simp [opensComment, (hne a ha).2.1, (hne a ha).2.2]
  split
  · refine ⟨?_, ?_⟩
    · intro c hc
      rcases List.mem_cons.1 hc with rfl | hc
      · decide
      · exact (hne c hc).1
    · rw [List.singleton_append, List.isChain_cons]
      refine ⟨fun b hb => ?_, hchain⟩
      simp [opensComment, (hne b (List.mem_of_mem_head? hb)).2.1]
  · exact ⟨fun c hc => (hne c hc).1, hchain⟩

theorem clear_codePhrases {t : Text} (h : Inert t) : Clear (tokensOfAll (codePhrases t)) := by
  rw [codePhrases, tokensOfAll_leaves]
  exact clear_codes h

theorem clear_literalPhrase {body : Text} (h : ∀ c ∈ body, c ≠ '\'') :
    Clear (tokensOfAll (literalPhrase body)) :=
  clear_singleton ⟨.inl rfl, .plain_of_forall h⟩

theorem ne_quote_of_isCalendarChar {c : Char} (h : isCalendarChar c = true) : c ≠ '\'' := by
  rintro rfl
  simp [isCalendarChar] at h

theorem ne_quote_of_isAlphanum {c : Char} (h : c.isAlphanum = true) : c ≠ '\'' := by
  rintro rfl
  simp at h

theorem ne_quote_of_mem_bytesBody {data : List UInt8} {c : Char} (h : c ∈ bytesBody data) :
    c ≠ '\'' := by
  rcases List.mem_append.1 h with h | h
  · fin_cases h <;> decide
  · obtain ⟨b, _, h⟩ := List.mem_flatMap.1 h
    exact ne_quote_of_isAlphanum (Text.isAlphanum_of_mem_fixedDigits (by decide) (by decide) h)

/-- Bytes are a literal with its type behind it. -/
theorem clear_bytes (data : List UInt8) : Clear (tokensOfAll (bytes data).phrases) := by
  have hliteral := clear_literalPhrase fun c (hc : c ∈ bytesBody data) =>
    ne_quote_of_mem_bytesBody hc
  have htype : Clear (tokensOfAll (codePhrases "::bytea")) := clear_codePhrases (by decide)
  rw [phrases, tokensOfAll_append]
  refine ⟨?_, ?_⟩
  · intro t ht
    exact (List.mem_append.1 ht).elim (hliteral.safe t) (htype.safe t)
  · rw [List.isChain_append]
    refine ⟨hliteral.chain, htype.chain, ?_⟩
    intro t ht u hu
    obtain rfl : quoted .plain _ = t := by simpa [literalPhrase, tokensOfAll, tokens] using ht
    obtain rfl : code ':' = u := by simpa [codePhrases, lit, codes] using hu
    trivial

/-- A list keeps its members clear, whatever the members are. -/
theorem clear_intercalate {pieces : List (List Token)} (h : ∀ ts ∈ pieces, Clear ts) :
    Clear ((codes ", ").intercalate pieces) := by
  induction pieces with
  | nil => exact .nil
  | cons piece rest ih =>
    have hrest := ih fun ts hts => h ts (by simp [hts])
    cases rest with
    | nil => simpa using h piece (by simp)
    | cons next rest =>
      rw [List.intercalate_cons_cons]
      have hspaced := Clear.append_separator (c := ' ') rfl .nil hrest
      simpa [lit, codes] using Clear.append_separator (c := ',') rfl (h piece (by simp)) hspaced

theorem clear_group {inside : List Phrase} (h : Clear (tokensOfAll inside)) :
    Clear (tokensOfAll [group inside]) := by
  have hclosed := Clear.append_separator (c := ')') rfl h .nil
  simpa [tokensOfAll, tokens] using Clear.append_separator (c := '(') rfl .nil hclosed

mutual

/-- An operand whose raw SQL is inert is clear. -/
theorem clear_phrases : ∀ v : Value, (∀ t ∈ v.verbatims, Inert t) →
    Clear (tokensOfAll v.phrases)
  | null, _ => clear_codePhrases (by decide)
  | bool b, _ => by
    rw [phrases]
    cases b <;> exact clear_codePhrases (by decide)
  | int n, _ => by
    obtain ⟨digits, heq, hdigits⟩ := Text.ofInt_eq n.toInt
    rw [phrases, heq]
    exact clear_codePhrases (inert_numeral hdigits)
  | float x, _ => by
    rw [phrases]
    cases x.view with
    | nan => exact clear_literalPhrase (by simp [lit])
    | infinite negative => cases negative <;> exact clear_literalPhrase (by simp [lit])
    | finite negative m e =>
      obtain ⟨digits, heq, hdigits⟩ := Binary64.Layout.sql_write_eq negative m e
      dsimp only
      rw [heq]
      exact clear_codePhrases (inert_numeral hdigits)
  | text t, _ => clear_singleton (safe_ofText t)
  | bytes data, _ => clear_bytes data
  | date d, _ => clear_literalPhrase fun _ hc =>
      ne_quote_of_isCalendarChar (Date.isCalendarChar_of_mem_render hc)
  | timestamp t, _ => clear_literalPhrase fun _ hc =>
      ne_quote_of_isCalendarChar (Timestamp.isCalendarChar_of_mem_render hc)
  | timestampUtc t, _ => clear_literalPhrase fun c hc => by
      rcases List.mem_append.1 hc with hc | hc
      · exact ne_quote_of_isCalendarChar (Timestamp.isCalendarChar_of_mem_render hc)
      · fin_cases hc <;> decide
  | list items, h => by
    rw [phrases, tokensOfAll_intercalate, codePhrases, tokensOfAll_leaves]
    refine clear_intercalate fun ts hts => ?_
    obtain ⟨ps, hps, rfl⟩ := List.mem_map.1 hts
    exact clear_phrasesOfItems items h ps hps
  | raw sql, h => clear_codePhrases (h sql (by simp [verbatims]))

theorem clear_phrasesOfItems : ∀ items : List Value, (∀ t ∈ verbatimsOfItems items, Inert t) →
    ∀ ps ∈ phrasesOfItems items, Clear (tokensOfAll ps)
  | [], _, ps, hps => by simp [phrasesOfItems] at hps
  | item :: rest, h, ps, hps => by
    have hitem := clear_phrases item fun t ht => h t (by simp [verbatimsOfItems, ht])
    rw [phrasesOfItems, List.mem_cons] at hps
    rcases hps with rfl | hps
    · split
      · exact clear_group hitem
      · exact hitem
    · exact clear_phrasesOfItems rest (fun t ht => h t (by simp [verbatimsOfItems, ht])) ps hps

end

/-! ## Brackets of operands -/

theorem proper_codePhrases {t : Text} (h : ∀ c ∈ t, c ≠ '(' ∧ c ≠ ')') :
    ∀ p ∈ codePhrases t, p.Proper := by
  intro p hp
  simp only [codePhrases, leaves, codes, List.map_map, List.mem_map, Function.comp_apply] at hp
  obtain ⟨c, hc, rfl⟩ := hp
  exact .leaf (by simpa using (h c hc).1) (by simpa using (h c hc).2)

theorem proper_numeral {negative : Prop} [Decidable negative] {digits : Text}
    (h : ∀ c ∈ digits, isNumeral c = true) :
    ∀ p ∈ codePhrases ((if negative then ['-'] else []) ++ digits), p.Proper := by
  refine proper_codePhrases fun c hc => ?_
  rcases List.mem_append.1 hc with hc | hc
  · split at hc
    · obtain rfl : c = '-' := by simpa using hc
      decide
    · simp at hc
  · have hnumeral := h c hc
    constructor <;> (rintro rfl; simp [isNumeral] at hnumeral)

theorem proper_quoted (form : Quoting) (body : Text) : (leaf (quoted form body)).Proper :=
  .leaf (by simp) (by simp)

theorem proper_literalPhrase (body : Text) : ∀ p ∈ literalPhrase body, p.Proper := by
  intro p hp
  rw [List.mem_singleton.1 hp]
  exact proper_quoted _ _

theorem proper_ofText (t : Text) : (leaf (ofText t)).Proper := by
  unfold ofText
  split <;> exact proper_quoted _ _

theorem mem_intercalate {α : Type} {sep : List α} {pieces : List (List α)} {x : α}
    (h : x ∈ sep.intercalate pieces) : x ∈ sep ∨ ∃ piece ∈ pieces, x ∈ piece := by
  induction pieces with
  | nil => simp at h
  | cons piece rest ih =>
    cases rest with
    | nil => exact .inr ⟨piece, by simp, by simpa using h⟩
    | cons next rest =>
      rw [List.intercalate_cons_cons, List.mem_append, List.mem_append] at h
      rcases h with (h | h) | h
      · exact .inr ⟨piece, by simp, h⟩
      · exact .inl h
      · rcases ih h with h | ⟨piece', hmem, h⟩
        · exact .inl h
        · exact .inr ⟨piece', by simp [hmem], h⟩

mutual

/-- The brackets of an operand without raw SQL are matched. -/
theorem proper_phrases : ∀ v : Value, v.RawFree → ∀ p ∈ v.phrases, p.Proper
  | null, _ => proper_codePhrases (by simp [lit])
  | bool b, _ => by
    rw [phrases]
    cases b <;> exact proper_codePhrases (by simp [lit])
  | int n, _ => by
    obtain ⟨digits, heq, hdigits⟩ := Text.ofInt_eq n.toInt
    rw [phrases, heq]
    exact proper_numeral hdigits
  | float x, _ => by
    rw [phrases]
    cases x.view with
    | nan => exact proper_literalPhrase _
    | infinite negative => exact proper_literalPhrase _
    | finite negative m e =>
      obtain ⟨digits, heq, hdigits⟩ := Binary64.Layout.sql_write_eq negative m e
      dsimp only
      rw [heq]
      exact proper_numeral hdigits
  | text t, _ => by
    intro p hp
    rw [phrases, List.mem_singleton] at hp
    rw [hp]
    exact proper_ofText t
  | bytes data, _ => by
    intro p hp
    rw [phrases, List.mem_append] at hp
    exact hp.elim (proper_literalPhrase _ p) (proper_codePhrases (by simp [lit]) p)
  | date d, _ => proper_literalPhrase _
  | timestamp t, _ => proper_literalPhrase _
  | timestampUtc t, _ => proper_literalPhrase _
  | list items, h => by
    intro p hp
    rw [phrases] at hp
    rcases mem_intercalate hp with hp | ⟨ps, hps, hp⟩
    · exact proper_codePhrases (by simp [lit]) p hp
    · exact proper_phrasesOfItems items (rawFree_list_iff.1 h) ps hps p hp
  | raw sql, h => by simp [RawFree, verbatims] at h

theorem proper_phrasesOfItems : ∀ items : List Value, (∀ item ∈ items, item.RawFree) →
    ∀ ps ∈ phrasesOfItems items, ∀ p ∈ ps, p.Proper
  | [], _, ps, hps => by simp [phrasesOfItems] at hps
  | item :: rest, h, ps, hps => by
    have hitem := proper_phrases item (h item (by simp))
    rw [phrasesOfItems, List.mem_cons] at hps
    rcases hps with rfl | hps
    · split
      · intro p hp
        rw [List.mem_singleton.1 hp]
        exact .group hitem
      · exact hitem
    · exact proper_phrasesOfItems rest (fun v hv => h v (by simp [hv])) ps hps

end

end Value

end SqlCompose
