import SqlCompose.Condition.Basic
import SqlCompose.Proofs.Algebra.Reader

/-!
# Expressions

`Expression t ps` says that a text is made of phrases whose literals,
brackets and `BETWEEN`s are complete, so it can stand beside others.
Expressions are closed under what the library does to written conditions: a
connective between two of them, leaving out blanks at the end, and brackets
around one.  Each lemma also says what becomes of the blocks.
-/

namespace SqlCompose

open Token Phrase

/-- What `blocksOf` finds in phrases. -/
def phraseBlocks (ps : List Phrase) : List (List Text) := blocksOf (roles false (chunks ps))

/-- A text whose literals, brackets and `BETWEEN`s are complete, as phrases. -/
structure Expression (t : Text) (ps : List Phrase) : Prop where
  spelled : spellAll (tokensOfAll ps) = t
  fits : Fits false (tokensOfAll ps)
  proper : ∀ p ∈ ps, p.Proper
  settled : (chunks ps).foldl awaits false = false

variable {t u : Text} {ps qs : List Phrase}

theorem Expression.readPhrases (h : Expression t ps) : readPhrases t = some ps := by
  rw [SqlCompose.readPhrases, scan_eq_some_iff.2 ⟨h.spelled, h.fits⟩, Option.bind_some]
  exact nest_eq_some_iff.2 ⟨rfl, h.proper⟩

theorem Expression.read (h : Expression t ps) (hblank : t.blank = false) :
    readExpression t = some (phraseBlocks ps) := by
  rw [readExpression, hblank, if_neg (by simp), h.readPhrases, Option.map_some, phraseBlocks]

/-! ## A connective between two expressions -/

/-- A single space. -/
def space : Phrase := leaf (code ' ')

theorem wordChar?_space : space.wordChar? = none := by
  simp [space, wordChar?, isWordChar]

theorem role_other (waiting : Bool) (p : Phrase) : role waiting (.other p) = .part := rfl

theorem awaits_other (waiting : Bool) (p : Phrase) : awaits waiting (.other p) = waiting := rfl

/-- The phrases of two texts with a word between them. -/
def joinPhrases (ps : List Phrase) (word : Text) (qs : List Phrase) : List Phrase :=
  ps ++ space :: (leaves (codes word) ++ space :: qs)

theorem chunks_joinPhrases {word : Text} (hword : chunks (leaves (codes word)) = [.word word])
    (ps qs : List Phrase) :
    chunks (joinPhrases ps word qs) =
      chunks ps ++ .other space :: .word word :: .other space :: chunks qs := by
  rw [joinPhrases, chunks_append_other wordChar?_space, chunks_append_other wordChar?_space, hword]
  rfl

/-- Two expressions with a word between are made of the phrases of both. -/
theorem fits_joinPhrases {word : Text} (hword : ∀ c ∈ word, c ≠ '\'' ∧ c ≠ '"')
    (hps : Fits false (tokensOfAll ps)) (hqs : Fits false (tokensOfAll qs)) :
    Fits false (tokensOfAll (joinPhrases ps word qs)) := by
  simp only [joinPhrases, space, tokensOfAll_append, tokensOfAll, tokens, tokensOfAll_leaves,
    List.singleton_append]
  rw [fits_append_separator rfl, fits_append_separator rfl]
  exact ⟨hps, fits_codes hword false, hqs⟩

theorem proper_joinPhrases {word : Text} (hword : ∀ c ∈ word, c ≠ '(' ∧ c ≠ ')')
    (hps : ∀ p ∈ ps, p.Proper) (hqs : ∀ p ∈ qs, p.Proper) :
    ∀ p ∈ joinPhrases ps word qs, p.Proper := by
  have hspace : space.Proper := .leaf (by simp) (by simp)
  intro p hp
  simp only [joinPhrases, List.mem_append, List.mem_cons] at hp
  rcases hp with hp | rfl | hp | rfl | hp
  · exact hps p hp
  · exact hspace
  · simp only [leaves, codes, List.map_map, List.mem_map, Function.comp_apply] at hp
    obtain ⟨c, hc, rfl⟩ := hp
    exact .leaf (by simpa using (hword c hc).1) (by simpa using (hword c hc).2)
  · exact hspace
  · exact hqs p hp

theorem spellAll_joinPhrases (word : Text) (ps qs : List Phrase) :
    spellAll (tokensOfAll (joinPhrases ps word qs)) =
      spellAll (tokensOfAll ps) ++ ' ' :: word ++ ' ' :: spellAll (tokensOfAll qs) := by
  simp [joinPhrases, space, tokensOfAll, tokens, spell]

/-- A connective between two expressions gives an expression, and both are read on their own. -/
theorem Expression.join {word : Text} (hword : word = "AND" ∨ word = "OR") (ht : Expression t ps)
    (hu : Expression u qs) :
    Expression (t ++ ' ' :: word ++ ' ' :: u) (joinPhrases ps word qs) ∧
      roles false (chunks (joinPhrases ps word qs)) =
        (roles false (chunks ps) ++ [(.part, .other space)]) ++
          (role false (.word word), .word word) :: (.part, .other space) ::
            roles false (chunks qs) := by
  have hchars : ∀ c ∈ word, (c ≠ '\'' ∧ c ≠ '"') ∧ (c ≠ '(' ∧ c ≠ ')') := by
    rcases hword with rfl | rfl <;> simp [lit]
  have hsingle : chunks (leaves (codes word)) = [.word word] := by
    rcases hword with rfl | rfl <;> rfl
  have hawaits : awaits false (.word word) = false := by
    rcases hword with rfl | rfl <;> rfl
  have hchunks := chunks_joinPhrases hsingle ps qs
  refine ⟨⟨?_, fits_joinPhrases (fun c hc => (hchars c hc).1) ht.fits hu.fits,
    proper_joinPhrases (fun c hc => (hchars c hc).2) ht.proper hu.proper, ?_⟩, ?_⟩
  · rw [spellAll_joinPhrases, ht.spelled, hu.spelled]
  · rw [hchunks, List.foldl_append, ht.settled]
    simp only [List.foldl_cons, awaits_other, hawaits]
    exact hu.settled
  · rw [hchunks, roles_append, ht.settled, List.append_assoc, roles, roles, roles, awaits_other,
      hawaits, awaits_other, role_other]
    rfl

/-- An `AND` between two expressions makes the last block of the one and the first of the
other one block. -/
theorem Expression.and (ht : Expression t ps) (hu : Expression u qs) :
    Expression (t ++ " AND " ++ u) (joinPhrases ps "AND" qs) ∧
      phraseBlocks (joinPhrases ps "AND" qs) =
        mergeWith (· ++ ·) (phraseBlocks ps) (phraseBlocks qs) := by
  obtain ⟨hjoined, hroles⟩ := ht.join (.inl rfl) hu
  refine ⟨by simpa [lit] using hjoined, ?_⟩
  have hrole : role false (.word (lit "AND")) = .and := by decide
  rw [phraseBlocks, hroles, hrole, blocksOf_and, blocksOf_concat rfl rfl, blocksOf_cons rfl rfl]
  rfl

/-- An `OR` between two expressions leaves their blocks as they are. -/
theorem Expression.or (ht : Expression t ps) (hu : Expression u qs) :
    Expression (t ++ " OR " ++ u) (joinPhrases ps "OR" qs) ∧
      phraseBlocks (joinPhrases ps "OR" qs) = phraseBlocks ps ++ phraseBlocks qs := by
  obtain ⟨hjoined, hroles⟩ := ht.join (.inr rfl) hu
  refine ⟨by simpa [lit] using hjoined, ?_⟩
  have hrole : role false (.word (lit "OR")) = .or := by decide
  rw [phraseBlocks, hroles, hrole, blocksOf_or, blocksOf_concat rfl rfl, blocksOf_cons rfl rfl]
  rfl

/-! ## Brackets and blanks -/

theorem trim_bracketed (body : Text) : (Text.bracketed body).trim = Text.bracketed body :=
  dropEnds_eq_self (by simp [Text.bracketed, isBlank])
    (by simp [Text.bracketed, List.getLast?_cons, isBlank])

/-- An expression between brackets is one predicate. -/
theorem Expression.bracketed (h : Expression t ps) :
    Expression (Text.bracketed t) [group ps] ∧
      phraseBlocks [group ps] = [[Text.bracketed t]] := by
  have hspelled : spellAll (tokensOfAll [group ps]) = Text.bracketed t := by
    simp [tokensOfAll, tokens, spell, h.spelled, Text.bracketed]
  refine ⟨⟨hspelled, ?_, ?_, rfl⟩, ?_⟩
  · have hclosed : Fits false (tokensOfAll ps ++ code ')' :: []) :=
      (fits_append_separator rfl false _ _).2 ⟨h.fits, trivial⟩
    have hopened := (fits_append_separator (c := '(') rfl false [] _).2 ⟨trivial, hclosed⟩
    simpa [tokensOfAll, tokens] using hopened
  · intro p hp
    rw [List.mem_singleton.1 hp]
    exact .group h.proper
  · have hpart : ∀ piece ∈ roles false (chunks [group ps]), piece.1 = .part := by
      simp [chunks, wordChar?, roles, role_other]
    rw [phraseBlocks, blocksOf_part hpart, predicateText]
    simp only [chunks, wordChar?, roles, List.flatMap_singleton, Chunk.spell, Chunk.phrases,
      hspelled, trim_bracketed]

theorem Token.Fits.of_append {inWord : Bool} {ts us : List Token} (h : Fits inWord (ts ++ us)) :
    Fits inWord ts := by
  have hhead : ∀ (vs : List Token) (d : Char), (spellAll (vs ++ us)).head? ≠ some d →
      (spellAll vs).head? ≠ some d := by
    intro vs d hd
    cases vs with
    | nil => simp
    | cons v vs => rwa [List.cons_append, head?_spellAll_cons v _ vs] at hd
  induction ts generalizing inWord with
  | nil => trivial
  | cons v ts ih =>
    cases v with
    | code c =>
      obtain ⟨hq, hn, hmark, hrest⟩ := h
      exact ⟨hq, hn, fun he hw => hhead ts _ (hmark he hw), ih hrest⟩
    | quoted form body =>
      obtain ⟨hopens, henclosed, hnext, hrest⟩ := h
      exact ⟨hopens, henclosed, hhead ts _ hnext, ih hrest⟩

/-- A blank at the end of a text is a phrase of its own. -/
theorem exists_concat_blank {c : Char} (hc : isBlank c = true)
    (h : spellAll (tokensOfAll ps) = t ++ [c]) :
    ∃ ps', ps = ps' ++ [leaf (code c)] ∧ spellAll (tokensOfAll ps') = t := by
  rcases List.eq_nil_or_concat ps with rfl | ⟨ps', p, rfl⟩
  · simp [tokensOfAll] at h
  refine ⟨ps', ?_⟩
  have hspell : spellAll (tokensOfAll ps') ++ spellAll p.tokens = t ++ [c] := by
    rw [← h]
    simp [tokensOfAll]
  cases p with
  | group inside =>
    have hclose : spellAll (tokensOfAll ps') ++ ('(' :: spellAll (tokensOfAll inside)) ++ [')'] =
        t ++ [c] := by
      rw [← hspell]
      simp [tokens, spell]
    obtain ⟨_, heq⟩ := List.append_inj' hclose rfl
    obtain rfl : ')' = c := by simpa using heq
    exact absurd hc (by decide)
  | leaf v =>
    obtain ⟨d, r, hrev, hblank, _⟩ := spell_ends v
    have hv : v.spell = r.reverse ++ [d] := by
      rw [← List.reverse_inj, hrev]
      simp
    have hlast : spellAll (tokensOfAll ps') ++ r.reverse ++ [d] = t ++ [c] := by
      rw [← hspell]
      simp [tokens, hv]
    obtain ⟨_, heq⟩ := List.append_inj' hlast rfl
    obtain rfl : d = c := by simpa using heq
    cases v with
    | quoted form body => simp [isBlankCode, hc] at hblank
    | code e =>
      have hcode : spellAll (tokensOfAll ps') ++ [e] = t ++ [d] := by
        rw [← hspell]
        simp [tokens, spell]
      obtain ⟨hfront, heq⟩ := List.append_inj' hcode rfl
      obtain rfl : e = d := by simpa using heq
      exact ⟨by simp, hfront⟩

/-- A blank at the end of an expression says nothing. -/
theorem Expression.of_concat_blank {c : Char} (hc : isBlank c = true)
    (h : Expression (t ++ [c]) ps) :
    ∃ ps', Expression t ps' ∧ chunks ps' <+: chunks ps ∧ phraseBlocks ps' = phraseBlocks ps := by
  obtain ⟨ps', rfl, hspelled⟩ := exists_concat_blank hc h.spelled
  have hchar : (leaf (code c)).wordChar? = none := by simp [wordChar?, hc]
  have hchunks : chunks (ps' ++ [leaf (code c)]) = chunks ps' ++ [.other (leaf (code c))] :=
    chunks_append_other hchar ps' []
  have hsettled := h.settled
  rw [hchunks, List.foldl_append] at hsettled
  refine ⟨ps', ⟨hspelled, ?_, fun p hp => h.proper p (by simp [hp]), hsettled⟩, ?_, ?_⟩
  · have hfits := h.fits
    rw [tokensOfAll_append] at hfits
    exact hfits.of_append
  · rw [hchunks]
    exact List.prefix_append _ _
  · have hgap : (Role.part, Chunk.other (leaf (code c))).2.isGap = true := hc
    rw [phraseBlocks, phraseBlocks, hchunks, roles_append]
    exact (blocksOf_concat hgap rfl _).symm

/-- Blanks at the end of an expression say nothing. -/
theorem Expression.trimEnd (h : Expression t ps) :
    ∃ ps', Expression t.trimEnd ps' ∧ chunks ps' <+: chunks ps ∧
      phraseBlocks ps' = phraseBlocks ps := by
  induction t using List.reverseRecOn generalizing ps with
  | nil => exact ⟨ps, h, List.prefix_rfl, rfl⟩
  | append_singleton t c ih =>
    cases hc : isBlank c with
    | false =>
      have hkeep : Text.trimEnd (t ++ [c]) = t ++ [c] := by simp [Text.trimEnd, hc]
      rw [hkeep]
      exact ⟨ps, h, List.prefix_rfl, rfl⟩
    | true =>
      have hdrop : Text.trimEnd (t ++ [c]) = Text.trimEnd t := by simp [Text.trimEnd, hc]
      obtain ⟨ps', hfront, hstart, hblocks⟩ := h.of_concat_blank hc
      obtain ⟨qs, hend, hstart', hblocks'⟩ := ih hfront
      rw [hdrop]
      exact ⟨qs, hend, hstart'.trans hstart, hblocks'.trans hblocks⟩

/-! ## How an expression begins -/

theorem chunks_cons_ne_nil (p : Phrase) (ps : List Phrase) : chunks (p :: ps) ≠ [] := by
  rw [chunks]
  split
  · cases chunks ps with
    | nil => simp [addChar]
    | cons ch cs => cases ch <;> simp [addChar]
  · simp

/-- The first chunk of phrases is not the word `OR`. -/
def BeginsPredicate (ps : List Phrase) : Prop :=
  ∃ ch rest, chunks ps = ch :: rest ∧ ch.isWord "OR" = false

theorem BeginsPredicate.of_isPrefix (h : BeginsPredicate ps) (hne : qs ≠ [])
    (hstart : chunks qs <+: chunks ps) : BeginsPredicate qs := by
  obtain ⟨ch, rest, hchunks, hword⟩ := h
  obtain ⟨q, qs, rfl⟩ := List.exists_cons_of_ne_nil hne
  obtain ⟨ch', rest', hchunks'⟩ := List.exists_cons_of_ne_nil (chunks_cons_ne_nil q qs)
  rw [hchunks, hchunks'] at hstart
  obtain ⟨rfl, _⟩ := List.cons_prefix_cons.1 hstart
  exact ⟨ch', rest', hchunks', hword⟩

theorem BeginsPredicate.join (h : BeginsPredicate ps) (word : Text) (qs : List Phrase) :
    BeginsPredicate (joinPhrases ps word qs) := by
  obtain ⟨ch, rest, hchunks, hword⟩ := h
  refine ⟨ch, rest ++ .other space :: chunks (leaves (codes word) ++ space :: qs), ?_, hword⟩
  rw [joinPhrases, chunks_append_other wordChar?_space, hchunks]
  rfl

theorem eq_leaf_of_tokensOfAll {c : Char} {us : List Token} (hc : c ≠ '(')
    (h : tokensOfAll ps = code c :: us) :
    ∃ ps', ps = leaf (code c) :: ps' ∧ tokensOfAll ps' = us := by
  cases ps with
  | nil => simp [tokensOfAll] at h
  | cons p ps =>
    cases p with
    | leaf t =>
      obtain ⟨rfl, hrest⟩ : t = code c ∧ tokensOfAll ps = us := by
        simpa [tokensOfAll, tokens] using h
      exact ⟨ps, rfl, hrest⟩
    | group inside =>
      have hopen := (List.cons.inj h).1
      exact absurd (code.inj hopen).symm hc

theorem eq_nil_of_tokensOfAll (h : tokensOfAll ps = []) : ps = [] := by
  cases ps with
  | nil => rfl
  | cons p ps => cases p <;> simp [tokensOfAll, tokens] at h

theorem Token.Fits.lead {inWord : Bool} {ts : List Token} (h : Fits inWord ts) :
    ∀ e body, quoted (.escape e) body ∈ ts → isEscapeMark e = true := by
  induction ts generalizing inWord with
  | nil => simp
  | cons v ts ih =>
    intro e body hmem
    cases v with
    | code c =>
      obtain ⟨_, _, _, hrest⟩ := h
      exact ih hrest e body (by simpa using hmem)
    | quoted form body' =>
      obtain ⟨hopens, _, _, hrest⟩ := h
      rcases List.mem_cons.1 hmem with heq | hmem
      · obtain ⟨rfl, rfl⟩ := quoted.inj heq
        exact hopens.1
      · exact ih hrest e body hmem

/-- A text that is the word `OR`, or has a space behind this word, begins no predicate. -/
theorem Expression.ne_or (h : Expression t ps) (hbegins : BeginsPredicate ps) :
    t ≠ lit "OR" ∧ ∀ r, t ≠ lit "OR " ++ r := by
  have hmarks : ∀ mark ∈ [lit "OR", lit "OR "], ∀ c ∈ mark,
      c ≠ '\'' ∧ c ≠ '"' ∧ isEscapeMark c = false := by
    simp [lit, isEscapeMark]
  have hword : ∀ rest, chunks ps ≠ .word (lit "OR") :: rest := by
    obtain ⟨ch, cs, hchunks, hor⟩ := hbegins
    intro rest heq
    rw [hchunks] at heq
    obtain ⟨rfl, _⟩ := List.cons.inj heq
    exact absurd hor (by decide)
  refine ⟨?_, ?_⟩
  · intro heq
    obtain ⟨us, hus, hnil⟩ := exists_codes_append (r := []) (hmarks (lit "OR") (by simp))
      h.fits.lead (h.spelled.trans (by rw [heq, List.append_nil]))
    obtain rfl : us = [] := by
      cases us with
      | nil => rfl
      | cons v us => simp [spell_ne_nil v] at hnil
    have hus : tokensOfAll ps = [code 'O', code 'R'] := by simpa [codes, lit] using hus
    obtain ⟨ps₁, rfl, h₁⟩ := eq_leaf_of_tokensOfAll (by decide) hus
    obtain ⟨ps₂, rfl, h₂⟩ := eq_leaf_of_tokensOfAll (by decide) h₁
    obtain rfl := eq_nil_of_tokensOfAll h₂
    exact hword [] rfl
  · intro r heq
    obtain ⟨us, hus, _⟩ := exists_codes_append (hmarks (lit "OR ") (by simp))
      h.fits.lead (h.spelled.trans heq)
    have hus : tokensOfAll ps = code 'O' :: code 'R' :: code ' ' :: us := by
      simpa [codes, lit] using hus
    obtain ⟨ps₁, rfl, h₁⟩ := eq_leaf_of_tokensOfAll (by decide) hus
    obtain ⟨ps₂, rfl, h₂⟩ := eq_leaf_of_tokensOfAll (by decide) h₁
    obtain ⟨ps₃, rfl, _⟩ := eq_leaf_of_tokensOfAll (by decide) h₂
    exact hword (.other space :: chunks ps₃) rfl

/-- Neither an expression nor an expression with more behind it begins with the mark of an
alternative. -/
theorem Expression.unmarked (h : Expression t ps) (hbegins : BeginsPredicate ps) (r : Text) :
    Condition.marked (t ++ ' ' :: r) = false := by
  obtain ⟨hword, hmark⟩ := h.ne_or hbegins
  rw [Bool.eq_false_iff, ne_eq, Condition.marked, List.isPrefixOf_iff_prefix]
  rintro ⟨s, hs⟩
  have hs : 'O' :: 'R' :: ' ' :: s = t ++ ' ' :: r := hs
  match t, hs with
  | [], hs => simp at hs
  | [c], hs => simp at hs
  | [c, d], hs =>
    obtain ⟨rfl, rfl, _⟩ : 'O' = c ∧ 'R' = d ∧ s = r := by simpa using hs
    exact hword rfl
  | c :: d :: e :: u, hs =>
    obtain ⟨rfl, rfl, rfl, _⟩ : 'O' = c ∧ 'R' = d ∧ ' ' = e ∧ s = u ++ ' ' :: r := by
      simpa using hs
    exact hmark u rfl

end SqlCompose
