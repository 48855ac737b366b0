import SqlCompose.Proofs.Algebra.Atoms
import SqlCompose.Proofs.Arity.Expressions
import SqlCompose.Proofs.Writing

/-!
# Texts that leave a union alone

A union is read by its words `UNION`, `ORDER` and `LIMIT`.  A text is `Calm`
when it can stand anywhere in a statement without being taken for one of
them: its literals, quoted names and brackets are complete, `scan` knows
everything in it, and no reserved word stands outside of its brackets.  So a
subquery between brackets may be ordered and limited, and a literal may hold
anything.

`kept_calm` says that this is not lost when texts are put together.
-/

namespace SqlCompose

open Token Phrase Value

/-- The words that a union is read by. -/
def setWords : List Text := ["UNION", "ORDER", "LIMIT"]

/-- Whether two neighbours open what `scan` takes for code: a comment, or text between dollar
signs.  A dollar sign before a digit is a parameter. -/
def opensForeign (a b : Char) : Bool :=
  opensComment a b || (a == '$' && isWordChar b && !b.isDigit)

namespace Token

/-- Whether no two characters of code open what `scan` does not know. -/
def Native : Token → Token → Prop
  | code a, code b => opensForeign a b = false
  | _, _ => True

/-- Tokens that SQL reads as `scan` does, also behind each of their blanks. -/
structure Firm (ts : List Token) : Prop where
  fits : Fits false ts
  behind : ∀ c us, code c :: us <:+ ts → isBlank c = true → Fits false us
  native : ts.IsChain Native

theorem Firm.of_isPrefix {ts us : List Token} (h : Firm us) (hts : ts <+: us) : Firm ts := by
  obtain ⟨rest, rfl⟩ := hts
  refine ⟨h.fits.of_append, ?_, h.native.infix (List.prefix_append ts rest).isInfix⟩
  rintro c us ⟨front, rfl⟩ hc
  exact Fits.of_append (h.behind c (us ++ rest) ⟨front, by simp⟩ hc)

theorem Firm.behind_blank {c : Char} {ts : List Token} (h : Firm (code c :: ts))
    (hc : isBlank c = true) : Firm ts := by
  have hsuffix : ts <:+ code c :: ts := List.suffix_cons _ _
  refine ⟨h.behind c ts List.suffix_rfl hc, ?_, h.native.infix hsuffix.isInfix⟩
  intro d us hus hd
  exact h.behind d us (hus.trans hsuffix) hd

theorem native_separator {c : Char} (hc : isSeparator c = true) (t : Token) :
    Native (code c) t ∧ Native t (code c) := by
  cases t with
  | quoted form body => exact ⟨trivial, trivial⟩
  | code d =>
    obtain ⟨hbehind, hfront⟩ := not_opensComment_of_separator hc d
    change opensForeign c d = false ∧ opensForeign d c = false
    rw [opensForeign, opensForeign, hbehind, hfront]
    rcases isSeparator_cases hc with rfl | rfl | rfl | rfl | rfl <;> simp [isWordChar]

/-- A separator keeps apart what stands on its two sides. -/
theorem Firm.append_separator {c : Char} {ts us : List Token} (hc : isSeparator c = true)
    (hts : Firm ts) (hus : Firm us) : Firm (ts ++ code c :: us) := by
  refine ⟨(fits_append_separator hc false ts us).2 ⟨hts.fits, hus.fits⟩, ?_, ?_⟩
  · rintro d vs ⟨front, hfront⟩ hd
    rcases List.append_eq_append_iff.1 hfront with ⟨rest, rfl, hrest⟩ | ⟨rest, rfl, hrest⟩
    · cases rest with
      | nil =>
        obtain ⟨-, rfl⟩ := List.cons.inj hrest
        exact hus.fits
      | cons e rest =>
        obtain ⟨rfl, rfl⟩ := List.cons.inj hrest
        exact (fits_append_separator hc false rest us).2
          ⟨hts.behind d rest (List.suffix_append _ _) hd, hus.fits⟩
    · cases rest with
      | nil =>
        obtain ⟨-, rfl⟩ := List.cons.inj hrest
        exact hus.fits
      | cons e rest =>
        obtain ⟨-, rfl⟩ := List.cons.inj hrest
        exact hus.behind d vs (List.suffix_append _ _) hd
  · rw [List.isChain_append]
    refine ⟨hts.native, ?_, ?_⟩
    · rw [List.isChain_cons]
      exact ⟨fun t _ => (native_separator hc t).1, hus.native⟩
    · intro t _ u hu
      obtain rfl : code c = u := by simpa using hu
      exact (native_separator hc t).2

theorem Clear.firm {ts : List Token} (h : Clear ts) : Firm ts := by
  refine ⟨h.fits, fun c us hus _ => (h.of_isInfix hus.isInfix).tail.fits, ?_⟩
  induction ts with
  | nil => exact .nil
  | cons t ts ih =>
    rw [List.isChain_cons]
    refine ⟨fun u hu => ?_, ih h.tail⟩
    have hbeside : Beside t u := (List.isChain_cons.1 h.chain).1 u hu
    cases t with
    | quoted form body => trivial
    | code a =>
      cases u with
      | quoted form body => trivial
      | code b =>
        have hinert : isInert a = true := h.safe (code a) (by simp)
        have hdollar : a ≠ '$' := by
          rintro rfl
          simp [isInert] at hinert
        have hcomment : opensComment a b = false := hbeside
        simp [Native, opensForeign, hcomment, hdollar]

end Token

/-! ## Calm texts -/

/-- The phrases of a text in which no reserved word stands outside of brackets. -/
structure CalmPhrases (reserved : List Text) (t : Text) (ps : List Phrase) : Prop where
  spelled : spellAll (tokensOfAll ps) = t
  firm : Firm (tokensOfAll ps)
  proper : ∀ p ∈ ps, p.Proper
  quiet : ∀ ch ∈ chunks ps, ∀ w ∈ reserved, ch.isWord w = false

/-- A complete text in which no reserved word stands outside of brackets. -/
def Calm (reserved : List Text) (t : Text) : Prop := ∃ ps, CalmPhrases reserved t ps

theorem CalmPhrases.written {reserved : List Text} {t : Text} {ps : List Phrase}
    (h : CalmPhrases reserved t ps) : Written t ps :=
  ⟨h.spelled, h.firm.fits, h.proper⟩

namespace Calm

variable {reserved : List Text} {t u : Text}

theorem mono {fewer : List Text} (h : Calm reserved t) (hfewer : fewer ⊆ reserved) :
    Calm fewer t := by
  obtain ⟨ps, hspelled, hfirm, hproper, hquiet⟩ := h
  exact ⟨ps, hspelled, hfirm, hproper, fun ch hch w hw => hquiet ch hch w (hfewer hw)⟩

theorem nil : Calm reserved [] := by
  refine ⟨[], rfl, Clear.nil.firm, ?_, ?_⟩
  · simp
  · simp [chunks]

/-- Inert text without brackets, whose words are not reserved. -/
theorem of_codes (hinert : Inert t) (hbrackets : ∀ c ∈ t, c ≠ '(' ∧ c ≠ ')')
    (hquiet : ∀ ch ∈ chunks (codePhrases t), ∀ w ∈ reserved, ch.isWord w = false) :
    Calm reserved t :=
  ⟨codePhrases t, spellAll_codePhrases t, (clear_codePhrases hinert).firm,
    proper_codePhrases hbrackets, hquiet⟩

/-- A word that is not reserved. -/
theorem of_letters (hne : t ≠ []) (hletters : t.all Char.isAlpha = true)
    (hreserved : t.upper ∉ reserved) : Calm reserved t := by
  have halpha : ∀ c ∈ t, c.isAlpha = true := List.all_eq_true.1 hletters
  have hnot : ∀ c ∈ t, ∀ d, d.isAlpha = false → c ≠ d := by
    rintro c hc d hd rfl
    simp [halpha c hc] at hd
  have hchars : ∀ c ∈ t, isWordChar c = true ∧ isBlank c = false := fun c hc =>
    ⟨by simp [isWordChar, Char.isAlphanum, halpha c hc], isBlank_of_isAlpha (halpha c hc)⟩
  have hinert : Inert t := by
    refine ⟨fun c hc => ?_, List.Pairwise.isChain (List.pairwise_of_forall_mem_list ?_)⟩
    · simp [isInert, hnot c hc]
    · intro c hc d _
      simp [opensComment, hnot c hc]
  refine .of_codes hinert (fun c hc => ⟨hnot c hc _ rfl, hnot c hc _ rfl⟩) ?_
  rw [chunks_word hne hchars]
  intro ch hch k hk
  rw [List.mem_singleton.1 hch, Bool.eq_false_iff]
  intro hword
  rw [Chunk.isWord, beq_iff_eq] at hword
  exact hreserved (hword ▸ hk)

theorem separated {c : Char} (hc : c ∈ [' ', ',', '.']) (ht : Calm reserved t)
    (hu : Calm reserved u) : Calm reserved (t ++ c :: u) := by
  obtain ⟨ps, rfl, hfirm, hproper, hquiet⟩ := ht
  obtain ⟨qs, rfl, hfirm', hproper', hquiet'⟩ := hu
  have hseparator : isSeparator c = true := by fin_cases hc <;> decide
  have hchar : (leaf (code c)).wordChar? = none := by
    fin_cases hc <;> simp [wordChar?, isWordChar]
  have hleaf : (leaf (code c)).Proper := by fin_cases hc <;> exact .leaf (by decide) (by decide)
  refine ⟨ps ++ leaf (code c) :: qs, ?_, ?_, ?_, ?_⟩
  · simp [tokensOfAll, tokens, spell]
  · rw [tokensOfAll_append, tokensOfAll, tokens, List.singleton_append]
    exact hfirm.append_separator hseparator hfirm'
  · simp only [List.forall_mem_append, List.forall_mem_cons]
    exact ⟨hproper, hleaf, hproper'⟩
  · rw [chunks_append_other hchar]
    simp only [List.forall_mem_append, List.forall_mem_cons]
    exact ⟨hquiet, fun _ _ => rfl, hquiet'⟩

/-- Brackets hide the words between them. -/
theorem bracketed {hidden : List Text} (h : Calm hidden t) :
    Calm reserved (Text.bracketed t) := by
  obtain ⟨ps, hps⟩ := h
  have hwritten := hps.written.bracketed
  refine ⟨[group ps], hwritten.spelled, ?_, hwritten.proper, ?_⟩
  · have hclosed := hps.firm.append_separator (c := ')') rfl Clear.nil.firm
    have hopened := Clear.nil.firm.append_separator (c := '(') rfl hclosed
    simpa [tokensOfAll, tokens] using hopened
  · intro ch hch w _
    obtain rfl : ch = .other (group ps) := by simpa [chunks, wordChar?] using hch
    rfl

/-- A blank at the front of a text is a phrase of its own. -/
theorem of_cons_blank {c : Char} (hc : isBlank c = true) (h : Calm reserved (c :: t)) :
    Calm reserved t := by
  obtain ⟨ps, hspelled, hfirm, hproper, hquiet⟩ := h
  have hcode : ∀ d ∈ [c], d ≠ '\'' ∧ d ≠ '"' ∧ isEscapeMark d = false := by
    intro d hd
    obtain rfl := List.mem_singleton.1 hd
    refine ⟨?_, ?_, ?_⟩
    · rintro rfl
      exact absurd hc (by decide)
    · rintro rfl
      exact absurd hc (by decide)
    · rw [Bool.eq_false_iff]
      intro hmark
      simp only [isEscapeMark, Bool.or_eq_true, beq_iff_eq] at hmark
      rcases hmark with rfl | rfl <;> exact absurd hc (by decide)
  obtain ⟨us, hus, rfl⟩ :=
    exists_codes_append hcode hfirm.fits.lead (hspelled.trans (List.singleton_append).symm)
  have hopen : c ≠ '(' := by
    rintro rfl
    exact absurd hc (by decide)
  obtain ⟨qs, rfl, rfl⟩ := eq_leaf_of_tokensOfAll hopen (by simpa [codes] using hus)
  have hchar : (leaf (code c)).wordChar? = none := by simp [wordChar?, hc]
  rw [chunks_cons_other hchar] at hquiet
  exact ⟨qs, rfl, Firm.behind_blank (by simpa [tokensOfAll, tokens] using hfirm) hc,
    fun p hp => hproper p (by simp [hp]), fun ch hch => hquiet ch (by simp [hch])⟩

theorem of_concat_blank {c : Char} (hc : isBlank c = true) (h : Calm reserved (t ++ [c])) :
    Calm reserved t := by
  obtain ⟨ps, hspelled, hfirm, hproper, hquiet⟩ := h
  obtain ⟨qs, rfl, hfront⟩ := exists_concat_blank hc hspelled
  have hchar : (leaf (code c)).wordChar? = none := by simp [wordChar?, hc]
  rw [chunks_append_other hchar] at hquiet
  rw [tokensOfAll_append] at hfirm
  exact ⟨qs, hfront, hfirm.of_isPrefix (List.prefix_append _ _),
    fun p hp => hproper p (by simp [hp]), fun ch hch => hquiet ch (by simp [hch])⟩

theorem trim (h : Calm reserved t) : Calm reserved t.trim :=
  Text.trim_of_blank (fun hc h => h.of_cons_blank hc) (fun hc h => h.of_concat_blank hc) h

/-- A mark at the front is a word of its own, and what stands behind it is calm without it. -/
theorem unmarked (h : Calm reserved (Condition.mark ++ t)) : Calm reserved t := by
  obtain ⟨ps, hspelled, hfirm, hproper, hquiet⟩ := h
  obtain ⟨us, hus, rfl⟩ := exists_codes_append Agree.inert_mark hfirm.fits.lead hspelled
  have hus : tokensOfAll ps = code 'O' :: code 'R' :: code ' ' :: us := by
    simpa [codes, lit, Condition.mark] using hus
  obtain ⟨ps₁, rfl, h₁⟩ := eq_leaf_of_tokensOfAll (by decide) hus
  obtain ⟨ps₂, rfl, h₂⟩ := eq_leaf_of_tokensOfAll (by decide) h₁
  obtain ⟨ps₃, rfl, rfl⟩ := eq_leaf_of_tokensOfAll (by decide) h₂
  have hbehind : ∀ c us, code c :: us <:+ code ' ' :: tokensOfAll ps₃ →
      code c :: us <:+ tokensOfAll (leaf (code 'O') :: leaf (code 'R') :: leaf (code ' ') :: ps₃) :=
    fun c us hsuffix => hsuffix.trans ⟨[code 'O', code 'R'], hus.symm⟩
  have hspace : Firm (code ' ' :: tokensOfAll ps₃) := by
    refine ⟨(fits_separator rfl false _).2 (hfirm.behind ' ' _ (hbehind _ _ List.suffix_rfl) rfl),
      fun c us hsuffix => hfirm.behind c us (hbehind c us hsuffix), ?_⟩
    exact hfirm.native.infix ⟨[code 'O', code 'R'], [], by simp [hus]⟩
  have hchunks : chunks (leaf (code 'O') :: leaf (code 'R') :: leaf (code ' ') :: ps₃) =
      .word "OR" :: .other space :: chunks ps₃ := rfl
  rw [hchunks] at hquiet
  exact ⟨ps₃, rfl, hspace.behind_blank rfl, fun p hp => hproper p (by simp [hp]),
    fun ch hch => hquiet ch (by simp [hch])⟩

end Calm

/-- Calm texts put together are calm. -/
theorem kept_calm {reserved : List Text} (hreserved : reserved ⊆ setWords) :
    Kept (Calm reserved) where
  nil := .nil
  separated := .separated
  bracketed := .bracketed
  trim := .trim
  unmarked := .unmarked
  word := by
    intro w hw
    have hcases : ∀ w ∈ bodyWords, w ∈ [lit "*", "="] ∨
        w ≠ [] ∧ w.all Char.isAlpha = true ∧ w.upper ∉ setWords := by decide
    rcases hcases w hw with hsign | ⟨hne, hletters, hother⟩
    · have hquiet : ∀ w ∈ [lit "*", "="], ∀ ch ∈ chunks (codePhrases w), ∀ k,
          ch.isWord k = false := by
        simp [codePhrases, leaves, codes, chunks, wordChar?, isWordChar, Chunk.isWord, lit]
      have hinert : ∀ w ∈ [lit "*", "="], Inert w := by decide
      have hbrackets : ∀ w ∈ [lit "*", "="], ∀ c ∈ w, c ≠ '(' ∧ c ≠ ')' := by simp [lit]
      exact .of_codes (hinert w hsign) (hbrackets w hsign) fun ch hch k _ =>
        hquiet w hsign ch hch k
    · exact .of_letters hne hletters fun hmem => hother (hreserved hmem)
  scalar := by
    intro v _ hraw
    have hinert : ∀ t ∈ v.verbatims, Inert t := by
      rw [show v.verbatims = [] from hraw]
      simp
    refine ⟨v.phrases, spellAll_phrases v, (clear_phrases v hinert).firm, proper_phrases v hraw, ?_⟩
    have hset : ∀ k ∈ setWords, k ∉ operandWords ∧ k.any Char.isAlpha = true := by decide
    intro ch hch k hk
    obtain ⟨hother, hletter⟩ := hset k (hreserved hk)
    cases ch with
    | other p => rfl
    | word w => exact (isOperandWord_phrases v hraw w hch).isWord_eq_false hother hletter

end SqlCompose
