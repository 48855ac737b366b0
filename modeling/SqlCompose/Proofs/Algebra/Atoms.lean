import SqlCompose.Proofs.Algebra.Expression
import SqlCompose.Proofs.Algebra.Meaning

/-!
# Atoms

What the library writes for a test of a field is a single predicate
(`Predicate.isAtomic_render`).  Its parts are fragments: text with complete
literals and brackets in which no word connects.  Fragments with a space
between are a fragment again, and so is one between brackets.  Only a
`BETWEEN` is put together by hand, since its `AND` is a word that connects
everywhere else.
-/

namespace SqlCompose

open Token Phrase

/-! ## Fragments -/

/-- A text with complete literals and brackets in which no word connects, as phrases. -/
structure Fragment (t : Text) (ps : List Phrase) : Prop where
  spelled : spellAll (tokensOfAll ps) = t
  fits : Fits false (tokensOfAll ps)
  proper : ∀ p ∈ ps, p.Proper
  neutral : ∀ ch ∈ chunks ps, ch.isKeyword = false

variable {t u : Text} {ps qs : List Phrase} {cs : List Chunk}

theorem role_of_neutral {ch : Chunk} (h : ch.isKeyword = false) (waiting : Bool) :
    role waiting ch = .part ∧ awaits waiting ch = waiting := by
  simp only [Chunk.isKeyword, Bool.or_eq_false_iff] at h
  obtain ⟨⟨hand, hor⟩, hbetween⟩ := h
  simp [role, awaits, hand, hor, hbetween]

/-- Chunks that all belong to a predicate, read from one state to another. -/
def Within (waiting : Bool) (cs : List Chunk) (after : Bool) : Prop :=
  (∀ piece ∈ roles waiting cs, piece.1 = .part) ∧ cs.foldl awaits waiting = after

theorem Within.append {waiting between after : Bool} {cs ds : List Chunk}
    (hcs : Within waiting cs between) (hds : Within between ds after) :
    Within waiting (cs ++ ds) after := by
  obtain ⟨hparts, rfl⟩ := hcs
  obtain ⟨hparts', rfl⟩ := hds
  refine ⟨?_, List.foldl_append⟩
  intro piece hpiece
  rw [roles_append, List.mem_append] at hpiece
  exact hpiece.elim (hparts piece) (hparts' piece)

theorem within_of_neutral (h : ∀ ch ∈ cs, ch.isKeyword = false) (waiting : Bool) :
    Within waiting cs waiting := by
  induction cs with
  | nil => exact ⟨by simp [roles], rfl⟩
  | cons ch cs ih =>
    obtain ⟨hrole, hawaits⟩ := role_of_neutral (h ch (by simp)) waiting
    obtain ⟨hparts, hafter⟩ := ih fun c hc => h c (by simp [hc])
    refine ⟨?_, ?_⟩
    · rw [roles, hrole, hawaits, List.forall_mem_cons]
      exact ⟨rfl, hparts⟩
    · rw [List.foldl_cons, hawaits, hafter]

/-- A text that is one predicate, whatever its outer blanks. -/
def IsAtomic (t : Text) : Prop :=
  ∃ ps, Expression t ps ∧ ∀ piece ∈ roles false (chunks ps), piece.1 = .part

theorem Fragment.expression (h : Fragment t ps) : Expression t ps :=
  ⟨h.spelled, h.fits, h.proper, (within_of_neutral h.neutral false).2⟩

theorem Fragment.isAtomic (h : Fragment t ps) : IsAtomic t :=
  ⟨ps, h.expression, (within_of_neutral h.neutral false).1⟩

theorem isAtomic_of_isPredicate (h : IsPredicate t) : IsAtomic t := by
  obtain ⟨_, ps, hps, hneutral⟩ := h
  obtain ⟨ts, hts, hnest⟩ := Option.bind_eq_some_iff.1 hps
  obtain ⟨hspell, hfits⟩ := scan_eq_some_iff.1 hts
  obtain ⟨rfl, hproper⟩ := nest_eq_some_iff.1 hnest
  exact Fragment.isAtomic ⟨hspell, hfits, hproper, hneutral⟩

/-- What is all one predicate is read as one block. -/
theorem Expression.blocks_of_part (h : Expression t ps)
    (hpart : ∀ piece ∈ roles false (chunks ps), piece.1 = .part) :
    phraseBlocks ps = [[t.trim]] := by
  have hspell : (roles false (chunks ps)).flatMap (fun piece => piece.2.spell) = t := by
    rw [← h.spelled, ← flatMap_spell_chunks, ← List.flatMap_map, map_snd_roles]
  rw [phraseBlocks, blocksOf_part hpart, predicateText, hspell]

theorem Fragment.separated (ht : Fragment t ps) (hu : Fragment u qs) :
    Fragment (t ++ ' ' :: u) (ps ++ space :: qs) := by
  refine ⟨?_, ?_, ?_, ?_⟩
  · simp [tokensOfAll, tokens, space, spell, ht.spelled, hu.spelled]
  · have hfits := (fits_append_separator (c := ' ') rfl false _ _).2 ⟨ht.fits, hu.fits⟩
    simpa [tokensOfAll, tokens, space] using hfits
  · intro p hp
    rcases List.mem_append.1 hp with hp | hp
    · exact ht.proper p hp
    · rcases List.mem_cons.1 hp with rfl | hp
      · exact .leaf (by simp) (by simp)
      · exact hu.proper p hp
  · intro ch hch
    rw [chunks_append_other wordChar?_space] at hch
    rcases List.mem_append.1 hch with hch | hch
    · exact ht.neutral ch hch
    · rcases List.mem_cons.1 hch with rfl | hch
      · rfl
      · exact hu.neutral ch hch

theorem Fragment.bracketed (h : Fragment t ps) : Fragment (Text.bracketed t) [group ps] := by
  obtain ⟨hexpression, _⟩ := h.expression.bracketed
  refine ⟨hexpression.spelled, hexpression.fits, hexpression.proper, ?_⟩
  simp [chunks, wordChar?, Chunk.isKeyword, Chunk.isWord]

/-! ## Words and operands -/

theorem fragment_codePhrases (hchars : ∀ c ∈ t, (c ≠ '\'' ∧ c ≠ '"') ∧ (c ≠ '(' ∧ c ≠ ')'))
    (hneutral : ∀ ch ∈ chunks (Value.codePhrases t), ch.isKeyword = false) :
    Fragment t (Value.codePhrases t) := by
  refine ⟨Value.spellAll_codePhrases t, ?_, Value.proper_codePhrases fun c hc => (hchars c hc).2,
    hneutral⟩
  rw [Value.codePhrases, tokensOfAll_leaves]
  exact fits_codes (fun c hc => (hchars c hc).1) false

theorem chunks_word (hne : t ≠ []) (h : ∀ c ∈ t, isWordChar c = true ∧ isBlank c = false) :
    chunks (Value.codePhrases t) = [.word t] := by
  induction t with
  | nil => exact absurd rfl hne
  | cons c r ih =>
    obtain ⟨hword, hblank⟩ := h c (by simp)
    have hchar : (leaf (code c)).wordChar? = some c := by simp [wordChar?, hword, hblank]
    change chunks (leaf (code c) :: Value.codePhrases r) = _
    rw [chunks, hchar]
    cases r with
    | nil => rfl
    | cons d r => rw [ih (by simp) fun e he => h e (by simp [he])]; rfl

theorem fragment_name (h : IsName t) : Fragment t (Value.codePhrases t) := by
  obtain ⟨hne, hchars, hkeyword⟩ := h
  refine fragment_codePhrases (fun c hc => ?_) ?_
  · have hword := (hchars c hc).1
    refine ⟨⟨?_, ?_⟩, ?_, ?_⟩ <;> (rintro rfl; simp [isWordChar] at hword)
  · rw [chunks_word hne hchars]
    simpa using hkeyword

theorem mem_of_mem_chunks {w : Text} (h : .word w ∈ chunks ps) :
    w ≠ [] ∧ ∀ c ∈ w, leaf (code c) ∈ ps := by
  induction ps generalizing w with
  | nil => simp [chunks] at h
  | cons p ps ih =>
    have hrest : .word w ∈ chunks ps → w ≠ [] ∧ ∀ c ∈ w, leaf (code c) ∈ p :: ps := fun hw =>
      ⟨(ih hw).1, fun c hc => List.mem_cons_of_mem _ ((ih hw).2 c hc)⟩
    rw [chunks] at h
    cases hp : p.wordChar? with
    | none => exact hrest (by simpa [hp] using h)
    | some d =>
      rw [hp] at h
      obtain rfl := eq_of_wordChar?_eq_some hp
      cases hchunks : chunks ps with
      | nil =>
        obtain rfl : w = [d] := by simpa [hchunks, addChar] using h
        simp
      | cons ch more =>
        cases ch with
        | other q =>
          rcases (by simpa [hchunks, addChar] using h : w = [d] ∨ .word w ∈ more) with rfl | hw
          · simp
          · exact hrest (by simp [hchunks, hw])
        | word w' =>
          rcases (by simpa [hchunks, addChar] using h : w = d :: w' ∨ .word w ∈ more) with rfl | hw
          · have hw' := (ih (w := w') (by simp [hchunks])).2
            refine ⟨by simp, ?_⟩
            intro c hc
            rcases List.mem_cons.1 hc with rfl | hc
            · simp
            · exact List.mem_cons_of_mem _ (hw' c hc)
          · exact hrest (by simp [hchunks, hw])

/-! ## The words of operands -/

/-- The words, in upper case, that operands are written with outside of literals. -/
def operandWords : List Text := ["NULL", "TRUE", "FALSE", "BYTEA"]

/-- A word of an operand: one of those above, or digits. -/
def IsOperandWord (w : Text) : Prop :=
  w.upper ∈ operandWords ∨ ∀ c ∈ w, c.isAlpha = false

/-- No other word with a letter in it is a word of an operand. -/
theorem IsOperandWord.isWord_eq_false {w keyword : Text} (h : IsOperandWord w)
    (hother : keyword ∉ operandWords) (hletter : keyword.any Char.isAlpha = true) :
    (Chunk.word w).isWord keyword = false := by
  rw [Bool.eq_false_iff, ne_eq, Chunk.isWord, beq_iff_eq]
  rintro rfl
  rcases h with hword | hdigits
  · exact hother hword
  · obtain ⟨c, hc, halpha⟩ := List.any_eq_true.1 hletter
    obtain ⟨d, hd, rfl⟩ := List.mem_map.1 hc
    rw [Char.isAlpha_toUpper_eq_isAlpha, hdigits d hd] at halpha
    exact absurd halpha (by simp)

namespace Value

theorem isOperandWord_numeral {negative : Prop} [Decidable negative] {digits w : Text}
    (h : ∀ c ∈ digits, isNumeral c = true)
    (hw : .word w ∈ chunks (codePhrases ((if negative then ['-'] else []) ++ digits))) :
    IsOperandWord w := by
  refine .inr fun c hc => ?_
  have hmem := (mem_of_mem_chunks hw).2 c hc
  simp only [codePhrases, leaves, codes, List.map_map, List.mem_map, Function.comp_apply,
    leaf.injEq, code.injEq, exists_eq_right, List.mem_append] at hmem
  rcases hmem with hmem | hmem
  · split at hmem
    · obtain rfl : c = '-' := by simpa using hmem
      decide
    · simp at hmem
  · have hrange := toNat_of_isNumeral (h c hmem)
    rw [Bool.eq_false_iff]
    intro halpha
    have hletter := toNat_of_isAlpha halpha
    omega

theorem not_word_quoted (form : Quoting) (body w : Text) :
    .word w ∉ chunks [leaf (quoted form body)] := by
  simp [chunks, wordChar?]

/-- Pieces with commas between have the words of the pieces. -/
theorem mem_chunks_intercalate {pieces : List (List Phrase)} {w : Text}
    (h : .word w ∈ chunks ((codePhrases ", ").intercalate pieces)) :
    ∃ ps ∈ pieces, .word w ∈ chunks ps := by
  induction pieces with
  | nil => simp [chunks] at h
  | cons piece rest ih =>
    cases rest with
    | nil => exact ⟨piece, by simp, by simpa using h⟩
    | cons next rest =>
      have hpieces : (codePhrases ", ").intercalate (piece :: next :: rest) =
          piece ++ leaf (code ',') :: space :: (codePhrases ", ").intercalate (next :: rest) := by
        rw [List.intercalate_cons_cons]
        simp [codePhrases, leaves, codes, lit, space]
      rw [hpieces, chunks_append_other (by simp [wordChar?, isWordChar]),
        chunks_cons_other wordChar?_space] at h
      rcases List.mem_append.1 h with h | h
      · exact ⟨piece, by simp, h⟩
      · obtain ⟨ps, hps, hw⟩ := ih (by simpa using h)
        exact ⟨ps, List.mem_cons_of_mem _ hps, hw⟩

mutual

/-- The words of an operand without raw SQL. -/
theorem isOperandWord_phrases : ∀ v : Value, v.RawFree → ∀ w, .word w ∈ chunks v.phrases →
    IsOperandWord w
  | null, _, w, hw => by
    have hone : chunks (codePhrases "NULL") = [.word "NULL"] := rfl
    rw [phrases, hone] at hw
    obtain rfl : w = lit "NULL" := by simpa using hw
    exact .inl (by decide)
  | bool b, _, w, hw => by
    have htrue : chunks (codePhrases "true") = [.word "true"] := rfl
    have hfalse : chunks (codePhrases "false") = [.word "false"] := rfl
    rw [phrases] at hw
    cases b with
    | false =>
      rw [if_neg (by simp), hfalse] at hw
      obtain rfl : w = lit "false" := by simpa using hw
      exact .inl (by decide)
    | true =>
      rw [if_pos rfl, htrue] at hw
      obtain rfl : w = lit "true" := by simpa using hw
      exact .inl (by decide)
  | int n, _, w, hw => by
    obtain ⟨digits, heq, hdigits⟩ := Text.ofInt_eq n.toInt
    rw [phrases, heq] at hw
    exact isOperandWord_numeral hdigits hw
  | float x, _, w, hw => by
    rw [phrases] at hw
    generalize x.view = view at hw
    cases view with
    | nan => exact absurd hw (not_word_quoted _ _ w)
    | infinite negative => exact absurd hw (not_word_quoted _ _ w)
    | finite negative m e =>
      obtain ⟨digits, heq, hdigits⟩ := Binary64.Layout.sql_write_eq negative m e
      dsimp only at hw
      rw [heq] at hw
      exact isOperandWord_numeral hdigits hw
  | text t, _, w, hw => by
    unfold phrases ofText at hw
    split at hw <;> exact absurd hw (not_word_quoted _ _ w)
  | bytes data, _, w, hw => by
    have htype : ∃ p q, chunks (codePhrases "::bytea") = [.other p, .other q, .word "bytea"] :=
      ⟨_, _, rfl⟩
    obtain ⟨p, q, htype⟩ := htype
    rw [phrases, literalPhrase, List.singleton_append, chunks_cons_other rfl, htype] at hw
    obtain rfl : w = lit "bytea" := by simpa using hw
    exact .inl (by decide)
  | date d, _, w, hw => absurd hw (not_word_quoted _ _ w)
  | timestamp t, _, w, hw => absurd hw (not_word_quoted _ _ w)
  | timestampUtc t, _, w, hw => absurd hw (not_word_quoted _ _ w)
  | list items, h, w, hw => by
    rw [phrases] at hw
    obtain ⟨ps, hps, hw⟩ := mem_chunks_intercalate hw
    exact isOperandWord_phrasesOfItems items (rawFree_list_iff.1 h) ps hps w hw
  | raw sql, h, _, _ => by simp [RawFree, verbatims] at h

theorem isOperandWord_phrasesOfItems : ∀ items : List Value, (∀ item ∈ items, item.RawFree) →
    ∀ ps ∈ phrasesOfItems items, ∀ w, .word w ∈ chunks ps → IsOperandWord w
  | [], _, ps, hps, _, _ => by simp [phrasesOfItems] at hps
  | item :: rest, h, ps, hps, w, hw => by
    have hitem := isOperandWord_phrases item (h item (by simp))
    rw [phrasesOfItems, List.mem_cons] at hps
    rcases hps with rfl | hps
    · split at hw
      · simp [chunks, wordChar?] at hw
      · exact hitem w hw
    · exact isOperandWord_phrasesOfItems rest (fun v hv => h v (by simp [hv])) ps hps w hw

end

/-- No word of an operand without raw SQL connects. -/
theorem neutral_phrases {v : Value} (h : v.RawFree) :
    ∀ ch ∈ chunks v.phrases, ch.isKeyword = false := by
  intro ch hch
  cases ch with
  | other p => rfl
  | word w =>
    have hw := isOperandWord_phrases v h w hch
    rw [Chunk.isKeyword, hw.isWord_eq_false (by decide) (by decide),
      hw.isWord_eq_false (by decide) (by decide), hw.isWord_eq_false (by decide) (by decide)]
    rfl

theorem fragment_phrases {v : Value} (h : v.RawFree) : Fragment v.quote v.phrases := by
  refine ⟨spellAll_phrases v, Clear.fits (clear_phrases v fun t ht => ?_), proper_phrases v h,
    neutral_phrases h⟩
  rw [h] at ht
  exact absurd ht List.not_mem_nil

end Value

/-! ## Predicates -/

namespace Predicate

/-- Fragments around the `AND` of a `BETWEEN` are one predicate. -/
theorem isAtomic_between {v w : Text} {vs ws : List Phrase} (ht : Fragment t ps)
    (hv : Fragment v vs) (hw : Fragment w ws) :
    IsAtomic (t ++ ' ' :: lit "BETWEEN" ++ ' ' :: (v ++ ' ' :: lit "AND" ++ ' ' :: w)) := by
  have hbetween : chunks (leaves (codes "BETWEEN")) = [.word "BETWEEN"] := rfl
  have hand : chunks (leaves (codes "AND")) = [.word "AND"] := rfl
  have hopen : Within false [.other space, .word "BETWEEN", .other space] true :=
    ⟨by simp [roles, role, Chunk.isWord, Text.upper, lit], rfl⟩
  have hclose : Within true [.other space, .word "AND", .other space] false :=
    ⟨by simp [roles, awaits_other, role, Chunk.isWord, Text.upper, lit], rfl⟩
  have hwithin : Within false
      (chunks (joinPhrases ps "BETWEEN" (joinPhrases vs "AND" ws))) false := by
    have hbounds := ((within_of_neutral hv.neutral true).append hclose).append
      (within_of_neutral hw.neutral false)
    have hall := ((within_of_neutral ht.neutral false).append hopen).append hbounds
    rw [chunks_joinPhrases hbetween, chunks_joinPhrases hand]
    simpa using hall
  have hquotes : ∀ word ∈ [lit "BETWEEN", lit "AND"], ∀ c ∈ word,
      (c ≠ '\'' ∧ c ≠ '"') ∧ (c ≠ '(' ∧ c ≠ ')') := by
    simp [lit]
  refine ⟨joinPhrases ps "BETWEEN" (joinPhrases vs "AND" ws), ⟨?_, ?_, ?_, hwithin.2⟩, hwithin.1⟩
  · rw [spellAll_joinPhrases, spellAll_joinPhrases, ht.spelled, hv.spelled, hw.spelled]
  · exact fits_joinPhrases (fun c hc => (hquotes _ (by simp) c hc).1) ht.fits
      (fits_joinPhrases (fun c hc => (hquotes _ (by simp) c hc).1) hv.fits hw.fits)
  · exact proper_joinPhrases (fun c hc => (hquotes _ (by simp) c hc).2) ht.proper
      (proper_joinPhrases (fun c hc => (hquotes _ (by simp) c hc).2) hv.proper hw.proper)

theorem fragment_keyword {word : Text} (h : word ∈ [lit "NOT", lit "LIKE", lit "IN", lit "IS",
    lit "NULL"]) : Fragment word (Value.codePhrases word) := by
  refine fragment_name ?_
  revert word
  decide

theorem fragment_operator {op : Text} (h : op ∈ comparisonOperators) :
    Fragment op (Value.codePhrases op) := by
  have hchars : ∀ op ∈ comparisonOperators, ∀ c ∈ op,
      (c ≠ '\'' ∧ c ≠ '"') ∧ (c ≠ '(' ∧ c ≠ ')') := by
    simp [comparisonOperators, lit]
  have hneutral : ∀ op ∈ comparisonOperators, ∀ ch ∈ chunks (Value.codePhrases op),
      ch.isKeyword = false := by
    decide
  exact fragment_codePhrases (hchars op h) (hneutral op h)

/-- A text with or without `NOT` in front. -/
theorem exists_fragment_not (negated : Bool) (h : Fragment t ps) :
    ∃ qs, Fragment (notWord negated ++ t) qs := by
  cases negated with
  | false => exact ⟨ps, h⟩
  | true =>
    have hnot : Fragment (lit "NOT") (Value.codePhrases (lit "NOT")) := fragment_keyword (by simp)
    exact ⟨_, by simpa [notWord, lit] using hnot.separated h⟩

/-- A test of a field is one predicate. -/
theorem isAtomic_render (p : Predicate) {field : Text} (hfield : IsName field)
    (h : p.test.Regular) : IsAtomic (p.render field) := by
  obtain ⟨negated, test⟩ := p
  have hname := fragment_name hfield
  cases test with
  | compare op v =>
    obtain ⟨hop, hv⟩ := h
    have hbehind := (fragment_operator hop).separated (Value.fragment_phrases hv)
    obtain ⟨qs, hall⟩ := exists_fragment_not negated (hname.separated hbehind)
    simpa [render] using hall.isAtomic
  | like v =>
    have hlike : Fragment (lit "LIKE") _ := fragment_keyword (by simp)
    obtain ⟨qs, hall⟩ := exists_fragment_not negated (hlike.separated (Value.fragment_phrases h))
    simpa [render, lit] using (hname.separated hall).isAtomic
  | among v =>
    have hin : Fragment (lit "IN") _ := fragment_keyword (by simp)
    obtain ⟨qs, hall⟩ :=
      exists_fragment_not negated (hin.separated (Value.fragment_phrases h).bracketed)
    simpa [render, lit, Text.bracketed] using (hname.separated hall).isAtomic
  | isNull =>
    have his : Fragment (lit "IS") _ := fragment_keyword (by simp)
    have hnull : Fragment (lit "NULL") _ := fragment_keyword (by simp)
    obtain ⟨qs, hall⟩ := exists_fragment_not negated hnull
    simpa [render, lit] using (hname.separated (his.separated hall)).isAtomic
  | between v w =>
    obtain ⟨hv, hw⟩ := h
    have hnot : Fragment (lit "NOT") _ := fragment_keyword (by simp)
    cases negated with
    | false =>
      have hall := isAtomic_between hname (Value.fragment_phrases hv) (Value.fragment_phrases hw)
      simpa [render, notWord, lit] using hall
    | true =>
      have hall := isAtomic_between (hname.separated hnot) (Value.fragment_phrases hv)
        (Value.fragment_phrases hw)
      simpa [render, notWord, lit] using hall
  | hasRows sql => exact absurd h id

end Predicate

/-! ## Atoms that say something -/

theorem blank_eq_false {c : Char} (hc : c ∈ t) (hblank : isBlank c = false) : t.blank = false := by
  rw [Bool.eq_false_iff, ne_eq, Text.blank_iff, List.all_eq_true]
  intro hall
  exact absurd (hall c hc) (by simp [hblank])

theorem ne_nil_of_blank (h : t.blank = false) : t ≠ [] := by
  rintro rfl
  exact absurd h (by decide)

theorem IsName.trim_eq (h : IsName t) : t.trim = t :=
  dropEnds_eq_self (fun c hc => (h.2.1 c (List.mem_of_mem_head? hc)).2)
    (fun c hc => (h.2.1 c (List.mem_of_mem_getLast? hc)).2)

/-- A text with a name in it is not blank. -/
theorem IsName.blank_eq_false (h : IsName t) (hsub : t ⊆ u) : u.blank = false := by
  obtain ⟨c, r, rfl⟩ := List.exists_cons_of_ne_nil h.1
  exact SqlCompose.blank_eq_false (hsub (by simp)) (h.2.1 c (by simp)).2

/-- One predicate that says something. -/
structure IsAtom (t : Text) : Prop where
  atomic : IsAtomic t
  solid : t.blank = false

theorem Predicate.isAtom_render (p : Predicate) {field : Text} (hfield : IsName field)
    (h : p.test.Regular) : IsAtom (p.render field) := by
  refine ⟨p.isAtomic_render hfield h, hfield.blank_eq_false fun c hc => ?_⟩
  obtain ⟨negated, test⟩ := p
  cases test with
  | hasRows sql => exact absurd h id
  | compare | like | among | isNull | between => simp [Predicate.render, hc]

theorem Criterion.isAtom_render (c : Criterion) {context : Option Text} (h : c.Regular context) :
    IsAtom (c.render context) := by
  obtain ⟨⟨field, hbound, hfield⟩, htest⟩ := h
  have hneeds : c.predicate.test.needsField = true := by
    cases ht : c.predicate.test with
    | hasRows sql =>
      rw [ht] at htest
      exact absurd htest id
    | compare | like | among | isNull | between => rfl
  obtain ⟨char, rest, rfl⟩ := List.exists_cons_of_ne_nil hfield.1
  rw [render, if_pos hneeds, hbound, Option.map_some, hfield.trim_eq]
  exact c.predicate.isAtom_render hfield htest

theorem Operand.isAtom_render (operand : Operand) {field : Text} (h : operand.Regular field) :
    IsAtom (operand.render field) := by
  cases operand with
  | criterion c => exact c.isAtom_render h
  | value v =>
    obtain ⟨hfield, hv⟩ := h
    have hname := fragment_name hfield
    have hequal : Fragment (lit "=") _ :=
      Predicate.fragment_operator (by simp [comparisonOperators])
    have hin : Fragment (lit "IN") _ := Predicate.fragment_keyword (by simp)
    have hassigned := hname.separated (hequal.separated (Value.fragment_phrases hv))
    have hlisted := hname.separated (hin.separated (Value.fragment_phrases hv).bracketed)
    cases v with
    | raw sql => simp [Value.RawFree, Value.verbatims] at hv
    | list items =>
      refine ⟨?_, hfield.blank_eq_false fun c hc => by simp [render, hc]⟩
      simpa [render, lit, Text.bracketed] using hlisted.isAtomic
    | null | bool | int | float | text | bytes | date | timestamp | timestampUtc =>
      refine ⟨?_, hfield.blank_eq_false fun c hc => by simp [render, hc]⟩
      simpa [render, lit] using hassigned.isAtomic

theorem isAtom_of_isPredicate (h : IsPredicate t) : IsAtom t :=
  ⟨isAtomic_of_isPredicate h, h.1⟩

/-- A predicate does not begin with the word `OR`. -/
theorem beginsPredicate_of_part (hne : ps ≠ [])
    (h : ∀ piece ∈ roles false (chunks ps), piece.1 = .part) : BeginsPredicate ps := by
  obtain ⟨p, ps, rfl⟩ := List.exists_cons_of_ne_nil hne
  obtain ⟨ch, rest, hchunks⟩ := List.exists_cons_of_ne_nil (chunks_cons_ne_nil p ps)
  refine ⟨ch, rest, hchunks, ?_⟩
  rw [hchunks, roles] at h
  have hrole := h _ List.mem_cons_self
  cases hor : ch.isWord "OR" with
  | false => rfl
  | true =>
    have hand : ch.isWord "AND" = false := by
      cases ch with
      | other p => rfl
      | word w =>
        have hw : w.upper = lit "OR" := by simpa [Chunk.isWord] using hor
        simp [Chunk.isWord, hw, lit]
    simp [role, hand, hor] at hrole

end SqlCompose
