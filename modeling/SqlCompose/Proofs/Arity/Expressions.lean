import SqlCompose.Proofs.Algebra.Reader
import SqlCompose.Proofs.OperandList

/-!
# Expressions between commas

A reader of SQL in which expressions stand one behind the other.  Commas
inside of literals and between brackets separate nothing.

There are three groups of lemmas.

* Texts.  `Written` says what a text is made of, and is closed under commas
  and brackets.
* Splitting.  `pieces_separator` is the only equation about commas that later
  lemmas use: what stands on the two sides of one is split on its own.
* Operands.  `expressions_phrases` says how many expressions an operand is.
  A scalar is one, but a list is as many as it has members.
-/

namespace SqlCompose

open Token Phrase Value

/-! ## Reading -/

namespace Phrase

/-- Whether a phrase is a comma. -/
def isComma : Phrase → Bool
  | leaf t => t == .code ','
  | group _ => false

/-- Whether a phrase is a blank. -/
def isGap : Phrase → Bool
  | leaf t => t.isBlankCode
  | group _ => false

/-- What stands between commas, without outer blanks. -/
def pieces (ps : List Phrase) : List (List Phrase) :=
  (ps.splitOnP isComma).map (dropEnds isGap)

/-- The pieces that are not empty. -/
def expressions (ps : List Phrase) : List (List Phrase) :=
  (pieces ps).filter fun piece => !piece.isEmpty

/-- What stands between two brackets, if there is nothing else. -/
def inside? : List Phrase → Option (List Phrase)
  | [group inside] => some inside
  | _ => none

end Phrase

/-- The tuples of a text, each as what stands between its brackets. -/
def readTuples (t : Text) : Option (List (List Phrase)) :=
  (readPhrases t).bind fun ps => (pieces ps).mapM inside?

example : (readTuples "('a, b', (1, 2)), (E'\\'', , 3)").map (·.map fun ps =>
    ((pieces ps).length, (expressions ps).length)) = some [(2, 2), (3, 2)] := by
  decide +kernel

/-! ## What a text is made of -/

/-- Phrases that are read from a text. -/
structure Written (t : Text) (ps : List Phrase) : Prop where
  spelled : spellAll (tokensOfAll ps) = t
  fits : Fits false (tokensOfAll ps)
  proper : ∀ p ∈ ps, p.Proper

namespace Written

variable {t u : Text} {ps qs : List Phrase}

theorem readPhrases (h : Written t ps) : readPhrases t = some ps := by
  rw [SqlCompose.readPhrases, scan_eq_some_iff.2 ⟨h.spelled, h.fits⟩, Option.bind_some]
  exact nest_eq_some_iff.2 ⟨rfl, h.proper⟩

theorem nil : Written [] [] := ⟨rfl, trivial, by simp⟩

/-- Text without quotes and brackets. -/
theorem of_codes (h : ∀ c ∈ t, (c ≠ '\'' ∧ c ≠ '"') ∧ (c ≠ '(' ∧ c ≠ ')')) :
    Written t (codePhrases t) := by
  refine ⟨spellAll_codePhrases t, ?_, proper_codePhrases fun c hc => (h c hc).2⟩
  rw [codePhrases, tokensOfAll_leaves]
  exact fits_codes (fun c hc => (h c hc).1) false

/-- An operand without raw SQL. -/
theorem of_rawFree {v : Value} (h : v.RawFree) : Written v.quote v.phrases := by
  have hinert : ∀ t ∈ v.verbatims, Inert t := by
    rw [show v.verbatims = [] from h]
    simp
  exact ⟨spellAll_phrases v, (clear_phrases v hinert).fits, proper_phrases v h⟩

theorem append_separator {c : Char} (hc : c = ',' ∨ c = ' ') (ht : Written t ps)
    (hu : Written u qs) : Written (t ++ c :: u) (ps ++ leaf (code c) :: qs) := by
  have hseparator : isSeparator c = true := by rcases hc with rfl | rfl <;> rfl
  have hleaf : (leaf (code c)).Proper := by
    rcases hc with rfl | rfl <;> exact .leaf (by decide) (by decide)
  refine ⟨?_, ?_, ?_⟩
  · simp [tokensOfAll, tokens, spell, ht.spelled, hu.spelled]
  · rw [tokensOfAll_append, tokensOfAll, tokens, List.singleton_append,
      fits_append_separator hseparator]
    exact ⟨ht.fits, hu.fits⟩
  · intro p hp
    rcases List.mem_append.1 hp with hp | hp
    · exact ht.proper p hp
    · rcases List.mem_cons.1 hp with rfl | hp
      · exact hleaf
      · exact hu.proper p hp

theorem bracketed (h : Written t ps) : Written (Text.bracketed t) [group ps] := by
  refine ⟨?_, ?_, ?_⟩
  · simp [tokensOfAll, tokens, spell, h.spelled, Text.bracketed]
  · have hclosed := (fits_append_separator (c := ')') rfl false _ []).2 ⟨h.fits, trivial⟩
    have hopened := (fits_separator (c := '(') rfl false _).2 hclosed
    simpa [tokensOfAll, tokens] using hopened
  · intro p hp
    rw [List.mem_singleton.1 hp]
    exact .group h.proper

/-- Texts with commas between. -/
theorem joinWith {α : Type} {f : α → Text} {g : α → List Phrase} {xs : List α}
    (h : ∀ x ∈ xs, Written (f x) (g x)) :
    Written (Text.joinWith ", " (xs.map f)) ((codePhrases ", ").intercalate (xs.map g)) := by
  induction xs with
  | nil => exact nil
  | cons x xs ih =>
    have hx := h x (by simp)
    have hxs := ih fun y hy => h y (by simp [hy])
    cases xs with
    | nil => simpa using hx
    | cons y ys =>
      have hspaced := append_separator (c := ' ') (.inr rfl) nil hxs
      have hjoined := append_separator (c := ',') (.inl rfl) hx hspaced
      simpa [Text.joinWith, lit, codePhrases, leaves, codes] using hjoined

end Written

/-! ## Splitting at commas -/

namespace Phrase

variable {ps qs : List Phrase}

theorem pieces_cons_gap {p : Phrase} (hgap : p.isGap = true) (ps : List Phrase) :
    pieces (p :: ps) = pieces ps := by
  have hcomma : p.isComma = false := by
    cases p with
    | group inside => rfl
    | leaf t =>
      cases t with
      | quoted form body => rfl
      | code c =>
        have : c ≠ ',' := by
          rintro rfl
          simp [isGap, isBlankCode, SqlCompose.isBlank] at hgap
        simpa [isComma] using this
  exact map_splitOnP_cons hcomma (dropEnds_cons hgap) ps

/-- What stands on the two sides of a comma is split on its own. -/
theorem pieces_separator (ps qs : List Phrase) :
    pieces (ps ++ codePhrases ", " ++ qs) = pieces ps ++ pieces qs := by
  have hspace : pieces (leaf (code ' ') :: qs) = pieces qs := pieces_cons_gap (by decide) qs
  rw [← hspace]
  unfold pieces
  rw [List.append_assoc, ← List.map_append]
  congr 1
  exact List.splitOnP_append_cons _ _ (by decide)

/-- Texts with commas between are split one by one, if there are any. -/
theorem pieces_intercalate {pss : List (List Phrase)} (hne : pss ≠ []) :
    pieces ((codePhrases ", ").intercalate pss) = pss.flatMap pieces := by
  induction pss with
  | nil => exact absurd rfl hne
  | cons ps pss ih =>
    cases pss with
    | nil => simp
    | cons qs pss =>
      rw [List.intercalate_cons_cons, pieces_separator, ih (by simp), List.flatMap_cons (x := ps)]

/-- What stands in front of texts with commas between belongs to the first of them. -/
theorem append_intercalate (ps first : List Phrase) (rest : List (List Phrase)) :
    ps ++ (codePhrases ", ").intercalate (first :: rest) =
      (codePhrases ", ").intercalate ((ps ++ first) :: rest) := by
  cases rest <;> simp

theorem expressions_intercalate (pss : List (List Phrase)) :
    expressions ((codePhrases ", ").intercalate pss) = pss.flatMap expressions := by
  cases pss with
  | nil => rfl
  | cons ps pss =>
    rw [expressions, pieces_intercalate (by simp), List.filter_flatMap]
    rfl

/-- Phrases that are one expression: no comma stands among them and no blank at their
ends. -/
structure Single (ps : List Phrase) : Prop where
  ne_nil : ps ≠ []
  noComma : ∀ p ∈ ps, p.isComma = false
  head : ∀ p ∈ ps.head?, p.isGap = false
  last : ∀ p ∈ ps.getLast?, p.isGap = false

theorem Single.of_forall (hne : ps ≠ []) (h : ∀ p ∈ ps, p.isComma = false ∧ p.isGap = false) :
    Single ps :=
  ⟨hne, fun p hp => (h p hp).1, fun p hp => (h p (List.mem_of_mem_head? hp)).2,
    fun p hp => (h p (List.mem_of_mem_getLast? hp)).2⟩

theorem pieces_of_noComma (h : ∀ p ∈ ps, p.isComma = false) : pieces ps = [dropEnds isGap ps] := by
  rw [pieces, List.splitOnP_eq_singleton (by simpa using h), List.map_singleton]

theorem Single.pieces (h : Single ps) : pieces ps = [ps] := by
  rw [pieces_of_noComma h.noComma, dropEnds_eq_self h.head h.last]

theorem Single.expressions (h : Single ps) : expressions ps = [ps] := by
  rw [Phrase.expressions, h.pieces]
  simpa using h.ne_nil

theorem flatMap_expressions_of_single {pss : List (List Phrase)} (h : ∀ ps ∈ pss, Single ps) :
    pss.flatMap expressions = pss := by
  induction pss with
  | nil => rfl
  | cons ps pss ih =>
    rw [List.flatMap_cons, (h ps (by simp)).expressions, ih fun qs hqs => h qs (by simp [hqs])]
    rfl

theorem single_group (inside : List Phrase) : Single [group inside] :=
  .of_forall (by simp) (by simp [isComma, isGap])

theorem single_codePhrases {t : Text} (hne : t ≠ [])
    (h : ∀ c ∈ t, c ≠ ',' ∧ SqlCompose.isBlank c = false) : Single (codePhrases t) := by
  refine .of_forall (by simpa [codePhrases, leaves, codes] using hne) ?_
  intro p hp
  simp only [codePhrases, leaves, codes, List.map_map, List.mem_map, Function.comp_apply] at hp
  obtain ⟨c, hc, rfl⟩ := hp
  obtain ⟨hcomma, hblank⟩ := h c hc
  exact ⟨by simpa [isComma] using hcomma, hblank⟩

end Phrase

/-! ## Expressions of operands -/

/-- A number has a digit, whether its decimal was found or not. -/
theorem Binary64.Layout.place_ne_nil (layout : Layout) (d : Decimal) : layout.place d ≠ [] := by
  unfold place
  split_ifs with hfraction hwhole
  · simp [lit]
  · intro hnil
    simp only [List.append_eq_nil_iff, List.replicate_eq_nil_iff] at hnil
    obtain ⟨⟨hdigits, hzeros⟩, -⟩ := hnil
    rw [hdigits, List.length_nil] at hzeros
    omega
  · simp

theorem Binary64.Layout.sql_write_ne_nil (negative : Bool) (m : Nat) (e : Int) :
    Layout.sql.write negative m e ≠ [] := by
  intro hnil
  have hdigits := (List.append_eq_nil_iff.1 hnil).2
  split at hdigits
  · simp at hdigits
  · exact place_ne_nil _ _ hdigits

namespace Value

theorem single_numeral {negative : Prop} [Decidable negative] {t digits : Text} (hne : t ≠ [])
    (ht : t = (if negative then ['-'] else []) ++ digits)
    (h : ∀ c ∈ digits, isNumeral c = true) : Single (codePhrases t) := by
  refine single_codePhrases hne fun c hc => ?_
  rw [ht] at hc
  rcases List.mem_append.1 hc with hc | hc
  · split at hc
    · obtain rfl : c = '-' := by simpa using hc
      decide
    · simp at hc
  · refine ⟨?_, isBlank_of_isNumeral (h c hc)⟩
    rintro rfl
    exact absurd (h ',' hc) (by decide)

theorem single_literalPhrase (body : Text) : Single (literalPhrase body) :=
  .of_forall (by simp [literalPhrase]) (by simp [literalPhrase, isComma, isGap, isBlankCode])

theorem single_ofText (t : Text) : Single [leaf (ofText t)] := by
  unfold ofText
  split <;> exact .of_forall (by simp) (by simp [isComma, isGap, isBlankCode])

/-- Bytes are one expression, type included. -/
theorem single_bytes (data : List UInt8) : Single (bytes data).phrases := by
  have hbody := single_literalPhrase (bytesBody data)
  have htype : Single (codePhrases "::bytea") :=
    single_codePhrases (by decide) (by simp [lit, SqlCompose.isBlank])
  rw [phrases]
  refine ⟨by simp [literalPhrase], ?_, ?_, ?_⟩
  · intro p hp
    exact (List.mem_append.1 hp).elim (hbody.noComma p) (htype.noComma p)
  · rw [List.head?_append_of_ne_nil _ hbody.ne_nil]
    exact hbody.head
  · rw [List.getLast?_append_of_ne_nil _ htype.ne_nil]
    exact htype.last

/-- A scalar is one expression. -/
theorem single_phrases : ∀ v : Value, v.RawFree → v.isList = false → Single v.phrases
  | null, _, _ => single_codePhrases (by decide) (by simp [lit, SqlCompose.isBlank])
  | bool b, _, _ => by
    rw [phrases]
    cases b <;> exact single_codePhrases (by decide) (by simp [lit, SqlCompose.isBlank])
  | int n, _, _ => by
    obtain ⟨digits, heq, hdigits⟩ := Text.ofInt_eq n.toInt
    exact single_numeral (ofInt_ne_nil n.toInt) heq hdigits
  | float x, _, _ => by
    rw [phrases]
    cases x.view with
    | nan => exact single_literalPhrase _
    | infinite negative => exact single_literalPhrase _
    | finite negative m e =>
      obtain ⟨digits, heq, hdigits⟩ := Binary64.Layout.sql_write_eq negative m e
      exact single_numeral (Binary64.Layout.sql_write_ne_nil negative m e) heq hdigits
  | text t, _, _ => single_ofText t
  | bytes data, _, _ => single_bytes data
  | date d, _, _ => single_literalPhrase _
  | timestamp t, _, _ => single_literalPhrase _
  | timestampUtc t, _, _ => single_literalPhrase _
  | list items, _, hlist => by simp [isList] at hlist
  | raw sql, h, _ => by simp [RawFree, verbatims] at h

/-- The expressions that an operand is written as: a list is written as its members. -/
def expressions : Value → List (List Phrase)
  | list items => phrasesOfItems items
  | v => [v.phrases]

/-- How many expressions an operand is written as. -/
def width : Value → Nat
  | list items => items.length
  | _ => 1

theorem length_phrasesOfItems (items : List Value) :
    (phrasesOfItems items).length = items.length := by
  induction items with
  | nil => rfl
  | cons item rest ih => rw [phrasesOfItems, List.length_cons, List.length_cons, ih]

theorem length_expressions (v : Value) : v.expressions.length = v.width := by
  cases v <;> simp [expressions, width, length_phrasesOfItems]

/-- A member of a list is one expression, a list between brackets included. -/
theorem single_of_mem_phrasesOfItems {items : List Value} (h : ∀ item ∈ items, item.RawFree)
    {ps : List Phrase} (hps : ps ∈ phrasesOfItems items) : Single ps := by
  induction items with
  | nil => simp [phrasesOfItems] at hps
  | cons item rest ih =>
    rw [phrasesOfItems, List.mem_cons] at hps
    rcases hps with rfl | hps
    · split
      · exact single_group _
      · rename_i hlist
        exact single_phrases item (h item (by simp)) (by simpa using hlist)
    · exact ih (fun v hv => h v (by simp [hv])) hps

theorem eq_list_or_scalar (v : Value) :
    (∃ items, v = list items) ∨
      (v.isList = false ∧ v.expressions = [v.phrases] ∧ v.width = 1) := by
  cases v with
  | list items => exact .inl ⟨items, rfl⟩
  | _ => exact .inr ⟨rfl, rfl, rfl⟩

theorem single_of_mem_expressions {v : Value} (h : v.RawFree) {ps : List Phrase}
    (hps : ps ∈ v.expressions) : Single ps := by
  rcases v.eq_list_or_scalar with ⟨items, rfl⟩ | ⟨hscalar, hexpressions, -⟩
  · exact single_of_mem_phrasesOfItems (rawFree_list_iff.1 h) hps
  · rw [hexpressions, List.mem_singleton] at hps
    rw [hps]
    exact single_phrases v h hscalar

/-- An operand is read as its expressions. -/
theorem expressions_phrases {v : Value} (h : v.RawFree) :
    Phrase.expressions v.phrases = v.expressions := by
  have hsingle : ∀ ps ∈ v.expressions, Single ps := fun ps => single_of_mem_expressions h
  rcases v.eq_list_or_scalar with ⟨items, rfl⟩ | ⟨-, hexpressions, -⟩
  · rw [phrases, expressions_intercalate]
    exact flatMap_expressions_of_single hsingle
  · rw [hexpressions] at hsingle ⊢
    exact (hsingle _ (by simp)).expressions

/-- An operand is its expressions with commas between. -/
theorem phrases_eq_intercalate (v : Value) :
    v.phrases = (codePhrases ", ").intercalate v.expressions := by
  rcases v.eq_list_or_scalar with ⟨items, rfl⟩ | ⟨-, hexpressions, -⟩
  · rw [phrases, expressions]
  · rw [hexpressions, List.intercalate_singleton]

end Value

end SqlCompose
