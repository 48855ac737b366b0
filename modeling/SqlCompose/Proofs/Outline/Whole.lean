import SqlCompose.Proofs.Outline.Words

/-!
# Texts without certain words

A text is `Whole` when its literals are complete and none of its words, as `words`
cuts them, is reserved.  A literal may hold anything.  Verbatim text is whole if it
is `Unmistakable`, which is about the words between its blanks and needs no reader.

The lemmas are in the order in which texts come about: single words, literals and
verbatim text, what is between blanks, commas, dots and brackets, and what is left
when blanks are trimmed.  `kept_whole` puts them together, for words that are among
those which begin the clauses of a `SELECT` and its joins.
-/

namespace SqlCompose

namespace Outline

open Token Value

/-- The words that the text of a `SELECT` is cut at. -/
def clauseWords : List Text :=
  ["DISTINCT", "TOP", "FROM", "INNER", "LEFT", "RIGHT", "CROSS", "JOIN", "ON", "WHERE", "GROUP",
    "HAVING", "ORDER", "LIMIT"]

/-- A text with complete literals, of whose words none is reserved. -/
structure Whole (reserved : List Text) (t : Text) : Prop where
  complete : (Place.start.behind t).isOutside = true
  first : (wordsFrom .start t).1 ∉ reserved
  later : ∀ w ∈ (wordsFrom .start t).2, w.text ∉ reserved

/-- Verbatim text that cannot be mistaken: it has no quote, and between its blanks there is none
of the words that a `SELECT` is cut at. -/
structure Unmistakable (t : Text) : Prop where
  unquoted : '\'' ∉ t
  free : ∀ word ∈ t.splitOnP isBlank, word ∉ clauseWords

/-- Whether a text is unmistakable can be computed. -/
theorem unmistakable_iff (t : Text) :
    Unmistakable t ↔
      (!t.contains '\'' &&
        (t.splitOnP isBlank).all fun word => !clauseWords.contains word) = true := by
  rw [Bool.and_eq_true, List.all_eq_true]
  constructor
  · rintro ⟨hquote, hfree⟩
    exact ⟨by simpa using hquote, fun word hword => by simpa using hfree word hword⟩
  · rintro ⟨hquote, hfree⟩
    exact ⟨by simpa using hquote, fun word hword => by simpa using hfree word hword⟩

instance (t : Text) : Decidable (Unmistakable t) := decidable_of_iff _ (unmistakable_iff t).symm

variable {reserved : List Text} {t u : Text} {c : Char}

/-! ## The words that are cut at -/

/-- The words that a `SELECT` is cut at are made of letters. -/
theorem letters_of_mem_clauseWords : ∀ k ∈ clauseWords, k ≠ [] ∧ k.all Char.isAlpha = true := by
  decide

theorem nil_not_mem (hreserved : reserved ⊆ clauseWords) : [] ∉ reserved :=
  fun hmem => (letters_of_mem_clauseWords _ (hreserved hmem)).1 rfl

theorem not_mem_of_mem (hreserved : reserved ⊆ clauseWords) (hc : c.isAlpha = false) :
    ∀ k ∈ reserved, c ∉ k := by
  intro k hk hmem
  have halpha := List.all_eq_true.1 (letters_of_mem_clauseWords k (hreserved hk)).2 c hmem
  exact absurd halpha (by rw [hc]; simp)

/-! ## Whole texts -/

theorem Whole.words (h : Whole reserved t) (blank : Char) :
    ∀ w ∈ words blank t, w.text ∉ reserved := by
  intro w hw
  rcases List.mem_cons.1 hw with rfl | hw
  · exact h.first
  · exact h.later w hw

/-- Where no word is reserved, the literals alone have to be complete. -/
theorem whole_nil_iff : Whole [] t ↔ (Place.start.behind t).isOutside = true :=
  ⟨Whole.complete, fun h => ⟨h, List.not_mem_nil, fun _ _ => List.not_mem_nil⟩⟩

theorem Whole.mono {fewer : List Text} (hfewer : fewer ⊆ reserved) (h : Whole reserved t) :
    Whole fewer t :=
  ⟨h.complete, fun hmem => h.first (hfewer hmem), fun w hw hmem => h.later w hw (hfewer hmem)⟩

/-! ## Words, literals and verbatim text -/

/-- Letters neither quote nor part words. -/
theorem solid_of_letters (ht : t.all Char.isAlpha = true) :
    ∀ c ∈ t, c ≠ '\'' ∧ isBlank c = false := by
  intro c hc
  have halpha : c.isAlpha = true := List.all_eq_true.1 ht c hc
  refine ⟨?_, isBlank_of_isAlpha halpha⟩
  rintro rfl
  exact absurd halpha (by decide)

theorem whole_of_solid (ht : ∀ c ∈ t, c ≠ '\'' ∧ isBlank c = false) (hreserved : t ∉ reserved) :
    Whole reserved t := by
  obtain ⟨hwords, hout⟩ := wordsFrom_solid (p := .start) rfl ht
  refine ⟨hout, ?_, ?_⟩
  · rwa [hwords]
  · rw [hwords]
    simp

/-- The end of a literal, with something behind it that belongs to its word. -/
theorem wordsFrom_closed {form : Quoting} {body : Text} (h : Enclosed form body)
    (hform : form.delimiter = '\'') (ht : ∀ c ∈ t, c ≠ '\'' ∧ isBlank c = false) :
    wordsFrom (.inside form.escapes) (body ++ '\'' :: t) = (body ++ '\'' :: t, []) ∧
      ((Place.inside form.escapes).behind (body ++ '\'' :: t)).isOutside = true := by
  obtain ⟨hbody, hbehind⟩ := wordsFrom_inside h hform ('\'' :: t)
  have hclose : (Place.inside form.escapes).next '\'' = .outside false form.escapes := rfl
  obtain ⟨hsolid, hout⟩ := wordsFrom_solid (p := .outside false form.escapes) rfl ht
  refine ⟨?_, ?_⟩
  · rw [hbody, wordsFrom_cons rfl, hclose, hsolid]
  · rw [Place.behind_append, hbehind]
    exact hout

/-- A literal is part of one word. -/
theorem wordsFrom_quoted {form : Quoting} {body : Text} (h : Enclosed form body)
    (hform : form.delimiter = '\'') (hopens : Opens false form)
    (ht : ∀ c ∈ t, c ≠ '\'' ∧ isBlank c = false) :
    wordsFrom .start ((quoted form body).spell ++ t) = ((quoted form body).spell ++ t, []) ∧
      (Place.start.behind ((quoted form body).spell ++ t)).isOutside = true := by
  obtain ⟨hwords, hout⟩ := wordsFrom_closed h hform ht
  have hspell : (quoted form body).spell ++ t = form.lead ++ '\'' :: (body ++ '\'' :: t) := by
    simp [Token.spell, hform]
  rw [hspell]
  cases form with
  | name => cases hform
  | plain =>
    have hopen : Place.start.next '\'' = .inside Quoting.plain.escapes := rfl
    refine ⟨?_, hout⟩
    rw [Quoting.lead, List.nil_append, wordsFrom_cons rfl, hopen, hwords]
  | escape mark =>
    obtain ⟨hmark, -⟩ := hopens
    have hcases : mark = 'E' ∨ mark = 'e' := by
      simpa only [isEscapeMark, Bool.or_eq_true, beq_iff_eq] using hmark
    have hopen : (Place.start.next mark).next '\'' = .inside (Quoting.escape mark).escapes := by
      rcases hcases with rfl | rfl <;> rfl
    have hblank : isBlank mark = false := by
      rcases hcases with rfl | rfl <;> decide
    have hletter : (Place.start.next mark).isOutside = true := by
      rcases hcases with rfl | rfl <;> rfl
    refine ⟨?_, ?_⟩
    · rw [Quoting.lead, List.singleton_append, wordsFrom_cons (by rw [hblank, Bool.and_false]),
        wordsFrom_cons (by rw [hletter]; rfl), hopen, hwords]
    · show (((Place.start.next mark).next '\'').behind (body ++ '\'' :: t)).isOutside = true
      rw [hopen]
      exact hout

/-- A literal is no reserved word, with or without something behind it. -/
theorem whole_quoted {form : Quoting} {body : Text} (h : Enclosed form body)
    (hform : form.delimiter = '\'') (hopens : Opens false form)
    (ht : ∀ c ∈ t, c ≠ '\'' ∧ isBlank c = false) (hreserved : reserved ⊆ clauseWords) :
    Whole reserved ((quoted form body).spell ++ t) := by
  obtain ⟨hwords, hout⟩ := wordsFrom_quoted h hform hopens ht
  refine ⟨hout, ?_, ?_⟩
  · rw [hwords]
    intro hmem
    have hquote : '\'' ∉ (quoted form body).spell ++ t := not_mem_of_mem hreserved rfl _ hmem
    refine hquote (List.mem_append_left _ ?_)
    simp [Token.spell, hform]
  · rw [hwords]
    simp

/-- Between the blanks of text without quotes are its words. -/
theorem wordsFrom_unquoted {p : Place} (hp : p.isOutside = true) (ht : '\'' ∉ t) :
    (wordsFrom p t).1 :: (wordsFrom p t).2.map Word.text = t.splitOnP isBlank ∧
      (p.behind t).isOutside = true := by
  induction t generalizing p with
  | nil => exact ⟨rfl, hp⟩
  | cons c t ih =>
    obtain ⟨hquote, hrest⟩ := not_or.1 (fun h => ht (List.mem_cons.2 h))
    obtain ⟨hwords, hout⟩ := ih (Place.isOutside_next hp (Ne.symm hquote)) hrest
    refine ⟨?_, hout⟩
    rw [List.splitOnP_cons_eq_if_modifyHead, ← hwords]
    cases hc : isBlank c with
    | true =>
      rw [Place.next_blank hp hc, wordsFrom_blank_cons hp hc]
      rfl
    | false =>
      rw [wordsFrom_cons (by rw [hc, Bool.and_false])]
      rfl

theorem Unmistakable.whole (h : Unmistakable t) (hreserved : reserved ⊆ clauseWords) :
    Whole reserved t := by
  obtain ⟨hwords, hout⟩ := wordsFrom_unquoted (p := .start) rfl h.unquoted
  have hfree : ∀ word ∈ (wordsFrom .start t).1 :: (wordsFrom .start t).2.map Word.text,
      word ∉ reserved := fun word hword hmem => h.free word (hwords ▸ hword) (hreserved hmem)
  obtain ⟨hfirst, hlater⟩ := List.forall_mem_cons.1 hfree
  exact ⟨hout, hfirst, fun w hw => hlater _ (List.mem_map_of_mem hw)⟩

/-! ## Texts put together -/

theorem Whole.nil (hreserved : reserved ⊆ clauseWords) : Whole reserved [] :=
  ⟨rfl, nil_not_mem hreserved, fun w hw => by cases hw⟩

theorem Whole.blank (ht : Whole reserved t) (hc : isBlank c = true) (hu : Whole reserved u) :
    Whole reserved (t ++ c :: u) := by
  refine ⟨?_, ?_, ?_⟩
  · show (Place.start.behind (t ++ c :: u)).isOutside = true
    rw [Place.behind_append]
    show (((Place.start.behind t).next c).behind u).isOutside = true
    rw [Place.next_blank ht.complete hc]
    exact hu.complete
  · rw [wordsFrom_blank ht.complete hc]
    exact ht.first
  · rw [wordsFrom_blank ht.complete hc]
    intro w hw
    rcases List.mem_append.1 hw with hw | hw
    · exact ht.later w hw
    · exact hu.words c w hw

/-- What a text is put together with, apart from blanks. -/
def seams : List Char := [',', '.', '(', ')']

theorem mem_seams (hc : c ∈ seams) : c = ',' ∨ c = '.' ∨ c = '(' ∨ c = ')' := by
  simpa [seams] using hc

theorem next_seam {p : Place} (hp : p.isOutside = true) (hc : c ∈ seams) : p.next c = .start := by
  rcases mem_seams hc with rfl | rfl | rfl | rfl <;>
    exact Place.next_eq_start hp (by decide) rfl rfl

/-- A word with a seam in it is not reserved. -/
theorem Whole.seam (ht : Whole reserved t) (hc : c ∈ seams) (hu : Whole reserved u)
    (hreserved : reserved ⊆ clauseWords) : Whole reserved (t ++ c :: u) := by
  have hnext := next_seam ht.complete hc
  obtain ⟨hblank, halpha⟩ : isBlank c = false ∧ c.isAlpha = false := by
    rcases mem_seams hc with rfl | rfl | rfl | rfl <;> exact ⟨rfl, rfl⟩
  have hother := not_mem_of_mem hreserved halpha
  obtain ⟨hfirst, hlater⟩ := wordsFrom_seam ht.complete hblank hnext u
  refine ⟨?_, ?_, ?_⟩
  · rw [Place.behind_append]
    show (((Place.start.behind t).next c).behind u).isOutside = true
    rw [hnext]
    exact hu.complete
  · rcases hfirst with hsame | hmem
    · exact hsame ▸ ht.first
    · exact fun hword => hother _ hword hmem
  · intro w hw
    rcases hlater w hw with ⟨v, hv, hsame⟩ | hw | hmem
    · exact hsame ▸ ht.later v hv
    · exact hu.later w hw
    · exact fun hword => hother _ hword hmem

/-! ## Texts without their blanks -/

/-- A blank in front of a text is a border. -/
theorem Whole.of_cons_blank (hc : isBlank c = true) (h : Whole reserved (c :: t)) :
    Whole reserved t := by
  have hwords := wordsFrom_blank_cons (p := .start) rfl hc t
  have hlater := h.later
  rw [hwords] at hlater
  obtain ⟨hfirst, hrest⟩ := List.forall_mem_cons.1 hlater
  refine ⟨?_, hfirst, hrest⟩
  have hcomplete : ((Place.start.next c).behind t).isOutside = true := h.complete
  rwa [Place.next_blank rfl hc] at hcomplete

/-- A blank behind a text is a border, too, since only a quote ends a literal. -/
theorem Whole.of_concat_blank (hc : isBlank c = true) (h : Whole reserved (t ++ [c])) :
    Whole reserved t := by
  have hquote : c ≠ '\'' := by
    rintro rfl
    exact absurd hc (by decide)
  have hcomplete := h.complete
  rw [Place.behind_append] at hcomplete
  have hout := Place.isOutside_of_next hquote hcomplete
  have hwords := wordsFrom_blank hout hc []
  have hfirst := h.first
  have hlater := h.later
  rw [hwords] at hfirst hlater
  exact ⟨hout, hfirst, fun w hw => hlater w (List.mem_append_left _ hw)⟩

theorem Whole.trim (h : Whole reserved t) : Whole reserved t.trim :=
  Text.trim_of_blank Whole.of_cons_blank Whole.of_concat_blank h

/-- The mark in front of a text is a word of its own. -/
theorem Whole.unmarked (h : Whole reserved (Condition.mark ++ t)) : Whole reserved t := by
  have hor : wordsFrom .start (lit "OR") = (lit "OR", []) ∧
      (Place.start.behind (lit "OR")).isOutside = true :=
    wordsFrom_solid rfl (solid_of_letters (by decide))
  have hblank : isBlank ' ' = true := rfl
  have hmark : Condition.mark ++ t = lit "OR" ++ ' ' :: t := rfl
  rw [hmark] at h
  have hlater := h.later
  rw [wordsFrom_blank hor.2 hblank, hor.1, List.nil_append] at hlater
  obtain ⟨hfirst, hrest⟩ := List.forall_mem_cons.1 hlater
  have hcomplete := h.complete
  rw [Place.behind_append] at hcomplete
  have hbehind : (((Place.start.behind (lit "OR")).next ' ').behind t).isOutside = true :=
    hcomplete
  rw [Place.next_blank hor.2 hblank] at hbehind
  exact ⟨hbehind, hfirst, hrest⟩

/-! ## Everything that is written -/

/-- A number with or without a sign neither quotes nor has letters, and is one word. -/
theorem solid_numeral {negative : Prop} [Decidable negative] {digits : Text}
    (hdigits : ∀ c ∈ digits, isNumeral c = true) :
    ∀ c ∈ (if negative then ['-'] else []) ++ digits,
      (c ≠ '\'' ∧ isBlank c = false) ∧ c.isAlpha = false := by
  intro c hc
  have hchar : c = '-' ∨ isNumeral c = true := by
    rcases List.mem_append.1 hc with hc | hc
    · split at hc
      · exact .inl (List.mem_singleton.1 hc)
      · cases hc
    · exact .inr (hdigits c hc)
  rcases hchar with rfl | hnumeral
  · exact ⟨⟨by decide, rfl⟩, rfl⟩
  · refine ⟨⟨?_, isBlank_of_isNumeral hnumeral⟩, ?_⟩
    · rintro rfl
      exact absurd hnumeral (by decide)
    · have hrange := toNat_of_isNumeral hnumeral
      rw [Bool.eq_false_iff]
      intro halpha
      have hletter := toNat_of_isAlpha halpha
      omega

theorem whole_numeral {negative : Prop} [Decidable negative] {digits : Text}
    (hdigits : ∀ c ∈ digits, isNumeral c = true) (hreserved : reserved ⊆ clauseWords) :
    Whole reserved ((if negative then ['-'] else []) ++ digits) := by
  have hsolid : ∀ c ∈ (if negative then ['-'] else []) ++ digits,
      (c ≠ '\'' ∧ isBlank c = false) ∧ c.isAlpha = false := solid_numeral hdigits
  refine whole_of_solid (fun c hc => (hsolid c hc).1) fun hmem => ?_
  have hne : (if negative then ['-'] else []) ++ digits ≠ [] := fun hnil =>
    nil_not_mem hreserved (hnil ▸ hmem)
  obtain ⟨c, hc⟩ := List.exists_mem_of_ne_nil _ hne
  exact not_mem_of_mem hreserved (hsolid c hc).2 _ hmem hc

theorem whole_literal {body : Text} (hbody : ∀ c ∈ body, c ≠ '\'')
    (hreserved : reserved ⊆ clauseWords) : Whole reserved (apostrophes body) := by
  simpa [Token.spell, Quoting.lead, Quoting.delimiter, apostrophes] using
    whole_quoted (t := []) (.plain_of_forall hbody) rfl trivial (by simp) hreserved

theorem whole_scalar (v : Value) (hlist : v.isList = false) (hraw : v.RawFree)
    (hreserved : reserved ⊆ clauseWords) : Whole reserved v.quote := by
  have hword : ∀ {w : Text}, w.all Char.isAlpha = true → w ∉ clauseWords → Whole reserved w :=
    fun hletters hw => whole_of_solid (solid_of_letters hletters) fun hmem => hw (hreserved hmem)
  cases v with
  | null => exact hword (by decide) (by decide)
  | bool b => cases b <;> exact hword (by decide) (by decide)
  | int n =>
    obtain ⟨digits, heq, hdigits⟩ := Text.ofInt_eq n.toInt
    rw [Value.quote, heq]
    exact whole_numeral hdigits hreserved
  | float x =>
    rw [Value.quote, quoteFloat]
    cases x.view with
    | nan => exact whole_literal (by simp [lit]) hreserved
    | infinite negative => cases negative <;> exact whole_literal (by simp [lit]) hreserved
    | finite negative m e =>
      obtain ⟨digits, heq, hdigits⟩ := Binary64.Layout.sql_write_eq negative m e
      dsimp only
      rw [heq]
      exact whole_numeral hdigits hreserved
  | text t =>
    rw [Value.quote, ← spell_ofText]
    have hopens : ∀ {form : Quoting} {body : Text}, ofText t = quoted form body →
        form.delimiter = '\'' ∧ Opens false form := by
      intro form body hform
      unfold ofText at hform
      split at hform <;> obtain ⟨rfl, -⟩ := Token.quoted.inj hform
      · exact ⟨rfl, rfl, rfl⟩
      · exact ⟨rfl, trivial⟩
    cases hform : ofText t with
    | code c =>
      have hliteral := isLiteral_ofText t
      rw [hform] at hliteral
      cases hliteral
    | quoted form body =>
      obtain ⟨hdelimiter, hopens⟩ := hopens hform
      simpa using whole_quoted (t := []) (enclosed_ofText hform) hdelimiter hopens (by simp) hreserved
  | bytes data =>
    have htype : ∀ c ∈ lit "::bytea", c ≠ '\'' ∧ isBlank c = false := by
      simp [lit, isBlank]
    have hbody : Enclosed .plain (bytesBody data) :=
      .plain_of_forall fun c hc => ne_quote_of_mem_bytesBody hc
    simpa [Token.spell, Quoting.lead, Quoting.delimiter, Value.quote, quoteBytes, apostrophes,
      bytesBody] using whole_quoted hbody rfl trivial htype hreserved
  | date d =>
    exact whole_literal (fun c hc => ne_quote_of_isCalendarChar
      (Date.isCalendarChar_of_mem_render hc)) hreserved
  | timestamp t =>
    exact whole_literal (fun c hc => ne_quote_of_isCalendarChar
      (Timestamp.isCalendarChar_of_mem_render hc)) hreserved
  | timestampUtc t =>
    refine whole_literal (fun c hc => ?_) hreserved
    rcases List.mem_append.1 hc with hc | hc
    · exact ne_quote_of_isCalendarChar (Timestamp.isCalendarChar_of_mem_render hc)
    · rintro rfl
      exact absurd hc (by decide)
  | list items => cases hlist
  | raw sql => cases hraw

/-- Texts without reserved words put together have none. -/
theorem kept_whole (hreserved : reserved ⊆ clauseWords) : Kept (Whole reserved) where
  nil := .nil hreserved
  separated := by
    intro c a b hc ha hb
    have hcases : c = ' ' ∨ c = ',' ∨ c = '.' := by simpa using hc
    rcases hcases with rfl | rfl | rfl
    · exact ha.blank rfl hb
    · exact ha.seam (by decide) hb hreserved
    · exact ha.seam (by decide) hb hreserved
  bracketed := by
    intro a ha
    have hnil : Whole reserved [] := .nil hreserved
    have hclosed := ha.seam (c := ')') (by decide) hnil hreserved
    exact hnil.seam (c := '(') (by decide) hclosed hreserved
  trim := .trim
  unmarked := .unmarked
  word := by
    intro w hw
    have hcases : ∀ w ∈ bodyWords, w ∈ [lit "*", "="] ∨ w.all Char.isAlpha = true := by decide
    have hother : ∀ w ∈ bodyWords, w ∉ clauseWords := by decide
    have hsigns : ∀ w ∈ [lit "*", "="], ∀ c ∈ w, c ≠ '\'' ∧ isBlank c = false := by
      simp [lit, isBlank]
    refine whole_of_solid ?_ fun hmem => hother w hw (hreserved hmem)
    rcases hcases w hw with hsign | hletters
    · exact hsigns w hsign
    · exact solid_of_letters hletters
  scalar v hlist hraw := whole_scalar v hlist hraw hreserved

end Outline

end SqlCompose
