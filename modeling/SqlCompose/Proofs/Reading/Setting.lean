import SqlCompose.Proofs.Reading.Literal

/-!
# One literal under either setting

A server reads a backslash between plain quotes as itself, or, with
`standard_conforming_strings` off, as the beginning of an escape.  In an
escape literal it begins an escape in any case.

`readLiteral` reads one literal at the front of a text and leaves what stands
behind it.  It knows no more escapes than the library writes, so whatever
else stands behind a backslash is refused.

There are three groups of lemmas.

* Pieces.  Each character is read back from its piece whatever follows:
  `readBody_plainPiece` under either setting, as long as the character needs
  no escape, and `readBody_escapePiece` where a backslash begins an escape.
* Bodies.  The pieces of a text are read one by one up to the quote behind
  them, which is where the text that follows must not go on with a quote.
* Tokens.  With the setting on, what is read at the front of a text is a token
  there, and means what the token means (`exists_token_of_readLiteral`).
  Between plain quotes every body is read (`readBody_of_enclosed`).

Main result: `readLiteral_quote`.
-/

namespace SqlCompose

namespace Text

/-! ## Reading -/

/-- What a character behind a backslash stands for, if it needs no digits. -/
def letterEscape? (c : Char) : Option Char :=
  match c with
  | '\\' => some '\\'
  | 'n' => some '\n'
  | 'r' => some '\r'
  | 't' => some '\t'
  | 'b' => some '\x08'
  | 'f' => some '\x0c'
  | _ => none

/-- The character that hexadecimal digits stand for.  None of them stands for NUL. -/
def numberedChar? (digits : Text) : Option Char := do
  let n ← Token.hexNumber? digits
  if n.isValidChar ∧ n ≠ 0 then some (Char.ofNat n) else none

/-- One more character at the front of what was read. -/
def readOn (c : Char) (found : Option (Text × Text)) : Option (Text × Text) :=
  found.map fun (t, rest) => (c :: t, rest)

/-- What stands in front of the quote that ends a literal, and the text behind that quote.
A backslash begins an escape or is a character as any other. -/
def readBody : Bool → Text → Option (Text × Text)
  | escapes, '\'' :: '\'' :: rest => readOn '\'' (readBody escapes rest)
  | _, '\'' :: rest => some ([], rest)
  | true, '\\' :: 'u' :: h₁ :: h₂ :: h₃ :: h₄ :: rest => do
    let c ← numberedChar? [h₁, h₂, h₃, h₄]
    readOn c (readBody true rest)
  | true, '\\' :: letter :: rest => do
    let c ← letterEscape? letter
    readOn c (readBody true rest)
  | true, ['\\'] => none
  | escapes, c :: rest => readOn c (readBody escapes rest)
  | _, [] => none

/-- The text that the literal at the front stands for, and the text behind that literal.
With the setting on, a backslash between plain quotes is a character as any other. -/
def readLiteral (conforming : Bool) : Text → Option (Text × Text)
  | '\'' :: rest => readBody (!conforming) rest
  | 'E' :: '\'' :: rest | 'e' :: '\'' :: rest => readBody true rest
  | _ => none

example : readLiteral true "'C:\\n''' || x" = some (lit "C:\\n'", lit " || x") ∧
    readLiteral false "'C:\\n''' || x" = some (lit "C:\n'", lit " || x") := by decide

/-! ## Pieces -/

section

variable {c : Char} {escapes : Bool}

@[simp] theorem readOn_some (c : Char) (t rest : Text) :
    readOn c (some (t, rest)) = some (c :: t, rest) := rfl

/-- A character that is no quote, and no backslash where that begins an escape, is read as
itself. -/
theorem readBody_cons (hquote : c ≠ '\'') (hslash : escapes = true → c ≠ '\\') (rest : Text) :
    readBody escapes (c :: rest) = readOn c (readBody escapes rest) := by
  rw [readBody]
  · intro _ h
    exact absurd h hquote
  · intro h
    exact absurd h hquote
  · intro _ _ _ _ _ hescapes h
    exact absurd h (hslash hescapes)
  · intro _ _ hescapes h
    exact absurd h (hslash hescapes)
  · intro hescapes h
    exact absurd h (hslash hescapes)

/-- A character that needs no escape means the same under either setting. -/
theorem readBody_plainPiece (hc : needsEscape c = false) (rest : Text) :
    readBody escapes (plainPiece c ++ rest) = readOn c (readBody escapes rest) := by
  unfold plainPiece
  by_cases hquote : c = '\''
  · rw [if_pos hquote, hquote]
    rfl
  · rw [if_neg hquote]
    apply readBody_cons hquote
    rintro - rfl
    simp [needsEscape] at hc

/-- A control character is read back from the four digits of its number, whatever digits
follow. -/
theorem readBody_numbered (hc : isControl c = true) (hnul : c ≠ '\x00') (rest : Text) :
    readBody true ('\\' :: 'u' :: upper (fixedDigits 16 4 c.toNat) ++ rest) =
      readOn c (readBody true rest) := by
  have hlt : c.toNat < 160 := Token.toNat_lt_of_isControl hc
  have hnumber := Token.hexNumber?_upper_fixedDigits (n := c.toNat) (by omega)
  have hvalid : c.toNat.isValidChar ∧ c.toNat ≠ 0 := by
    refine ⟨.inl (by omega), fun hzero => hnul ?_⟩
    rw [← Char.ofNat_toNat c, hzero]
  have hchar : numberedChar? (upper (fixedDigits 16 4 c.toNat)) = some c := by
    rw [numberedChar?, hnumber, Option.bind_eq_bind, Option.bind_some, if_pos hvalid,
      Char.ofNat_toNat]
  rw [Token.upper_fixedDigits_four] at hchar ⊢
  simp only [List.cons_append, List.nil_append, readBody]
  rw [hchar, Option.bind_eq_bind, Option.bind_some]

/-- A character behind a backslash is read as what it stands for. -/
theorem readBody_letter {letter : Char} (h : letterEscape? letter = some c) (rest : Text) :
    readBody true ('\\' :: letter :: rest) = readOn c (readBody true rest) := by
  have hletter : letter ≠ 'u' := by
    rintro rfl
    simp [letterEscape?] at h
  rw [readBody, h, Option.bind_eq_bind, Option.bind_some]
  intro _ _ _ _ _ hu
  exact absurd hu hletter

/-- Where a backslash begins an escape, each character but NUL is read back from its piece,
and NUL has none. -/
theorem readBody_escapePiece (c : Char) (rest : Text) :
    readBody true (escapePiece c ++ rest) =
      if c = '\x00' then readBody true rest else readOn c (readBody true rest) := by
  unfold escapePiece
  split
  · rw [if_pos rfl, List.nil_append]
  · rfl
  · exact readBody_letter rfl rest
  · exact readBody_letter rfl rest
  · exact readBody_letter rfl rest
  · exact readBody_letter rfl rest
  · exact readBody_letter rfl rest
  · exact readBody_letter rfl rest
  · rename_i hnul hquote hslash _ _ _ _ _
    rw [if_neg hnul]
    by_cases hc : isControl c = true
    · rw [if_pos hc]
      exact readBody_numbered hc hnul rest
    · rw [if_neg hc]
      exact readBody_cons hquote (fun _ => hslash) rest

end

/-! ## Bodies -/

section

variable {rest : Text}

/-- A quote that no other follows ends the literal. -/
theorem readBody_quote (escapes : Bool) (h : rest.head? ≠ some '\'') :
    readBody escapes ('\'' :: rest) = some ([], rest) := by
  rw [readBody]
  intro tail heq
  rw [heq] at h
  exact absurd rfl h

/-- A text that needs no escape is read back under either setting. -/
theorem readBody_plain (escapes : Bool) {t : Text} (ht : ∀ c ∈ t, needsEscape c = false)
    (h : rest.head? ≠ some '\'') :
    readBody escapes (t.flatMap plainPiece ++ '\'' :: rest) = some (t, rest) := by
  induction t with
  | nil => exact readBody_quote escapes h
  | cons c r ih =>
    rw [List.forall_mem_cons] at ht
    rw [List.flatMap_cons, List.append_assoc, readBody_plainPiece ht.1, ih ht.2, readOn_some]

/-- Where a backslash begins an escape, every text is read back without its NUL characters. -/
theorem readBody_escape (t : Text) (h : rest.head? ≠ some '\'') :
    readBody true (t.flatMap escapePiece ++ '\'' :: rest) = some (t.withoutNul, rest) := by
  induction t with
  | nil => exact readBody_quote true h
  | cons c r ih =>
    rw [List.flatMap_cons, List.append_assoc, readBody_escapePiece, ih]
    by_cases hnul : c = '\x00'
    · simp [hnul, withoutNul]
    · simp [hnul, withoutNul]

/-- NUL needs the escape form, so a text that does without has none to lose. -/
theorem withoutNul_of_plain {t : Text} (ht : ∀ c ∈ t, needsEscape c = false) :
    t.withoutNul = t := by
  rw [withoutNul, List.filter_eq_self]
  intro c hc
  have hplain := ht c hc
  simp only [ne_eq, decide_eq_true_eq]
  rintro rfl
  exact absurd hplain (by decide)

/-- Under either setting the literal of a text is read as one literal, ends where the text
that follows begins, and means the text without its NUL characters. -/
theorem readLiteral_quote (conforming : Bool) (t : Text) (h : rest.head? ≠ some '\'') :
    readLiteral conforming (t.quote ++ rest) = some (t.withoutNul, rest) := by
  unfold quote
  by_cases hescape : t.any needsEscape = true
  · rw [if_pos hescape]
    simp only [List.cons_append, List.append_assoc, List.nil_append, readLiteral]
    exact readBody_escape t h
  · have ht : ∀ c ∈ t, needsEscape c = false := by
      intro c hc
      rw [Bool.not_eq_true, List.any_eq_false] at hescape
      simpa using hescape c hc
    rw [if_neg hescape, withoutNul_of_plain ht]
    simp only [List.cons_append, List.append_assoc, List.nil_append, readLiteral]
    exact readBody_plain (!conforming) ht h

/-- Quotes beside backslashes, a NUL, a control character in front of digits, and a letter of
an escape behind the literal. -/
theorem readLiteral_quote_hostile :
    readLiteral false (quote "\\'\x00\u008541'' OR E'\n" ++ "n' OR ''=''") =
        some (lit "\\'\u008541'' OR E'\n", lit "n' OR ''=''") ∧
      readLiteral true (quote "it's, --E" ++ "::text") = some (lit "it's, --E", lit "::text") :=
  ⟨readLiteral_quote false _ (by decide), readLiteral_quote true _ (by decide)⟩

end

/-! ## Tokens -/

section

open Token (Enclosed)

variable {form : Quoting} {c : Char} {t s rest : Text}

theorem readOn_eq_some_iff {found : Option (Text × Text)} :
    readOn c found = some (s, rest) ↔ ∃ t, found = some (t, rest) ∧ s = c :: t := by
  rw [readOn, Option.map_eq_some_iff]
  constructor
  · rintro ⟨⟨t, rest'⟩, hfound, heq⟩
    cases heq
    exact ⟨t, hfound, rfl⟩
  · rintro ⟨t, hfound, rfl⟩
    exact ⟨(t, rest), hfound, rfl⟩

/-- A text begins with the body of a literal, which means this, and with the quote that ends
it. -/
def BeginsBody (form : Quoting) (t s rest : Text) : Prop :=
  ∃ body, t = body ++ '\'' :: rest ∧ Enclosed form body ∧
    (Token.quoted form body).content = some s ∧ rest.head? ≠ some '\''

/-- One more piece of a body. -/
theorem BeginsBody.readOn {found : Option (Text × Text)}
    (ih : ∀ {s}, found = some (s, rest) → BeginsBody form t s rest) (piece : Text)
    (henclosed : ∀ r, Enclosed form r → Enclosed form (piece ++ r))
    (hcontent : ∀ r, (Token.quoted form (piece ++ r)).content =
      (Token.quoted form r).content.map (c :: ·))
    (h : Text.readOn c found = some (s, rest)) : BeginsBody form (piece ++ t) s rest := by
  obtain ⟨s, hfound, rfl⟩ := readOn_eq_some_iff.1 h
  obtain ⟨body, rfl, hbody, hread, hrest⟩ := ih hfound
  refine ⟨piece ++ body, by rw [List.append_assoc], henclosed body hbody, ?_, hrest⟩
  rw [hcontent, hread, Option.map_some]

theorem content_of_numberedChar? {h₁ h₂ h₃ h₄ : Char}
    (h : numberedChar? [h₁, h₂, h₃, h₄] = some c) (hform : form.escapes = true) (r : Text) :
    (Token.quoted form ('\\' :: 'u' :: h₁ :: h₂ :: h₃ :: h₄ :: r)).content =
      (Token.quoted form r).content.map (c :: ·) := by
  rw [numberedChar?, Option.bind_eq_bind, Option.bind_eq_some_iff] at h
  obtain ⟨n, hn, hchar⟩ := h
  obtain ⟨hvalid, hc⟩ := Option.ite_none_right_eq_some.1 hchar
  obtain rfl := Option.some.inj hc
  cases form with
  | plain | name => cases hform
  | escape mark =>
    rw [Token.content, Token.readEscape, hn, Option.bind_eq_bind, Option.bind_some,
      if_pos hvalid]
    rfl

theorem content_of_letterEscape? {letter : Char} (h : letterEscape? letter = some c)
    (hform : form.escapes = true) (r : Text) :
    (Token.quoted form ('\\' :: letter :: r)).content =
      (Token.quoted form r).content.map (c :: ·) := by
  cases form with
  | plain | name => cases hform
  | escape mark =>
    unfold letterEscape? at h
    split at h <;> cases h <;> rfl

/-- The digits of a number escape do not end a literal. -/
theorem enclosed_of_numberedChar? {digits : Text} (h : numberedChar? digits = some c)
    (hform : form.delimiter = '\'') : Enclosed form digits := by
  obtain ⟨n, hn, -⟩ := Option.bind_eq_some_iff.1 h
  refine .of_forall fun d hd => ?_
  have hdigit := Token.isSome_hexDigit?_of_hexNumber? hn d hd
  rw [hform]
  constructor <;> rintro rfl <;> exact absurd hdigit (by decide)

/-- What is read of a body is what the token means that has it.  By induction on the reading:
the cases are the pieces that a body is read in. -/
theorem beginsBody_of_readBody (hform : form.delimiter = '\'')
    (h : readBody form.escapes t = some (s, rest)) : BeginsBody form t s rest := by
  generalize hescapes : form.escapes = escapes at h
  fun_induction readBody escapes t generalizing s with
  | case1 _ t ih =>
    refine .readOn (ih hescapes) ['\'', '\''] (fun r hr => ?_) (Token.content_doubled hform) h
    exact hform ▸ .doubled hr
  | case2 _ t hnext =>
    cases h
    refine ⟨[], rfl, .nil, ?_, ?_⟩
    · cases form with
      | plain | escape mark => rfl
      | name => cases hform
    · intro hhead
      obtain ⟨tail, rfl⟩ := List.head?_eq_some_iff.1 hhead
      exact hnext tail rfl
  | case3 h₁ h₂ h₃ h₄ t ih =>
    obtain ⟨c, hc, hon⟩ := Option.bind_eq_some_iff.1 h
    exact .readOn (ih hescapes) ['\\', 'u', h₁, h₂, h₃, h₄]
      (fun r hr => .escaped 'u' hescapes ((enclosed_of_numberedChar? hc hform).append hr))
      (content_of_numberedChar? hc hescapes) hon
  | case4 letter t hnumber ih =>
    obtain ⟨c, hc, hon⟩ := Option.bind_eq_some_iff.1 h
    exact .readOn (ih hescapes) ['\\', letter] (fun r hr => .escaped letter hescapes hr)
      (content_of_letterEscape? hc hescapes) hon
  | case5 => cases h
  | case6 _ c t hdoubled hquote hnumber hletter hlast ih =>
    have hslash : form.escapes = true → c ≠ '\\' := by
      rintro htrue rfl
      cases t with
      | nil => exact hlast (hescapes ▸ htrue) rfl rfl
      | cons letter t => exact hletter letter t (hescapes ▸ htrue) rfl rfl
    exact .readOn (ih hescapes) [c] (fun r hr => .char (hform ▸ hquote) hslash hr)
      (Token.content_cons hform hquote hslash) h
  | case7 => cases h

/-- A literal that is read at the front of a text, with the setting on, is a token there, and it
is read as what the token means. -/
theorem exists_token_of_readLiteral (h : readLiteral true t = some (s, rest)) :
    ∃ form body, (Token.quoted form body).isLiteral = true ∧ Enclosed form body ∧
      t = (Token.quoted form body).spell ++ rest ∧ (Token.quoted form body).content = some s ∧
      rest.head? ≠ some '\'' := by
  have hspell : ∀ (form : Quoting) {behind : Text}, form.delimiter = '\'' →
      readBody form.escapes behind = some (s, rest) →
      ∃ body, Enclosed form body ∧
        form.lead ++ '\'' :: behind = (Token.quoted form body).spell ++ rest ∧
        (Token.quoted form body).content = some s ∧ rest.head? ≠ some '\'' := by
    intro form behind hform hread
    obtain ⟨body, rfl, henclosed, hmeant⟩ := beginsBody_of_readBody hform hread
    exact ⟨body, henclosed, by simp [Token.spell, hform], hmeant⟩
  unfold readLiteral at h
  split at h
  · obtain ⟨body, hbody⟩ := hspell .plain rfl h
    exact ⟨.plain, body, rfl, hbody⟩
  · obtain ⟨body, hbody⟩ := hspell (.escape 'E') rfl h
    exact ⟨.escape 'E', body, rfl, hbody⟩
  · obtain ⟨body, hbody⟩ := hspell (.escape 'e') rfl h
    exact ⟨.escape 'e', body, rfl, hbody⟩
  · cases h

/-- Between plain quotes every body is read, as the token means it. -/
theorem readBody_of_enclosed {body : Text} (hbody : Enclosed .plain body)
    (hrest : rest.head? ≠ some '\'') :
    readBody false (body ++ '\'' :: rest) = some (Token.readPlain body, rest) := by
  induction hbody with
  | nil => exact readBody_quote false hrest
  | char hquote _ _ ih =>
    rw [List.cons_append, readBody_cons hquote (by simp), ih, readOn_some,
      Token.readPlain_cons_of_ne hquote]
  | @doubled r _ ih =>
    change readOn '\'' (readBody false (r ++ '\'' :: rest)) = _
    rw [ih]
    rfl
  | escaped c hescapes => cases hescapes

end

end Text

end SqlCompose
