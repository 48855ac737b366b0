import Mathlib
import SqlCompose.Text.Basic

/-!
# Tokens of SQL text

How PostgreSQL cuts a text into what is quoted and what is not, with
`standard_conforming_strings` on.  A quoted part is a string literal `'...'`
in which a quote is written twice, an escape literal `E'...'` in which a
backslash takes the next character with it, or a quoted name `"..."`.  A
letter `E` begins an escape literal only where a word can begin.  Every
other character is a token of its own.

`scan` reads a text from left to right.  `Fits` says that tokens, written
one behind the other, keep their borders, and `scanFrom_eq_some_iff` is the
main result: the tokens of a text are those that spell it and fit.  So a
later proof shows what a text is made of without running the scanner.

`fits_append_separator` is how tokens are put together: a separator between
two runs of tokens keeps them apart whatever they are.
-/

namespace SqlCompose

/-- The ways of quoting. -/
inductive Quoting where
  /-- A string literal, `'...'`. -/
  | plain
  /-- An escape literal, with the letter before its quote. -/
  | escape (mark : Char)
  /-- A quoted name, `"..."`. -/
  | name
  deriving DecidableEq

namespace Quoting

/-- The character at both ends. -/
def delimiter : Quoting → Char
  | name => '"'
  | plain | escape _ => '\''

/-- What stands before the opening delimiter. -/
def lead : Quoting → Text
  | escape mark => [mark]
  | plain | name => []

/-- Whether a backslash takes the next character with it. -/
def escapes : Quoting → Bool
  | escape _ => true
  | plain | name => false

end Quoting

/-- A token: one character, or a quoted part with its body as it is written. -/
inductive Token where
  | code (c : Char)
  | quoted (form : Quoting) (body : Text)
  deriving DecidableEq

/-- Whether a character can stand inside a word. -/
def isWordChar (c : Char) : Bool :=
  c.isAlphanum || c == '_' || c == '$' || 0x80 ≤ c.toNat

/-- Whether a character can mark an escape literal. -/
def isEscapeMark (c : Char) : Bool := c == 'E' || c == 'e'

namespace Token

/-- A token as it is written. -/
def spell : Token → Text
  | code c => [c]
  | quoted form body => form.lead ++ form.delimiter :: body ++ [form.delimiter]

/-- Tokens as they are written, one behind the other. -/
def spellAll (ts : List Token) : Text := ts.flatMap spell

@[simp] theorem spellAll_nil : spellAll [] = [] := rfl

@[simp] theorem spellAll_cons (t : Token) (ts : List Token) :
    spellAll (t :: ts) = t.spell ++ spellAll ts := rfl

@[simp] theorem spellAll_append (ts us : List Token) :
    spellAll (ts ++ us) = spellAll ts ++ spellAll us := by
  simp [spellAll]

theorem spell_ne_nil (t : Token) : t.spell ≠ [] := by
  cases t <;> simp [spell]

/-- The characters of a text, each a token of its own. -/
def codes (t : Text) : List Token := t.map code

@[simp] theorem spellAll_codes (t : Text) : spellAll (codes t) = t := by
  induction t with
  | nil => rfl
  | cons c r ih => simpa [codes, spell] using ih

/-! ## Scanning -/

/-- Where a scanner stands. -/
inductive Place where
  /-- Outside of quotes; the character before may or may not belong to a word. -/
  | code (inWord : Bool)
  /-- Before the opening delimiter, behind its lead. -/
  | opening (form : Quoting)
  /-- Inside, behind a part of the body. -/
  | inside (form : Quoting) (body : Text)
  /-- Inside, and the next character belongs to the body whatever it is. -/
  | taking (form : Quoting) (body : Text)

/-- Cuts a text into tokens; nothing if a quoted part does not end. -/
def scanFrom : Place → Text → Option (List Token)
  | .code _, [] => some []
  | .code inWord, c :: rest =>
    if c = '\'' then scanFrom (.inside .plain []) rest
    else if c = '"' then scanFrom (.inside .name []) rest
    else if isEscapeMark c && !inWord && rest.head? == some '\'' then
      scanFrom (.opening (.escape c)) rest
    else (scanFrom (.code (isWordChar c)) rest).map (.code c :: ·)
  | .opening form, _ :: rest => scanFrom (.inside form []) rest
  | .inside form body, c :: rest =>
    if c = form.delimiter then
      if rest.head? = some form.delimiter then scanFrom (.taking form (body ++ [c])) rest
      else (scanFrom (.code false) rest).map (.quoted form body :: ·)
    else if form.escapes && c == '\\' then scanFrom (.taking form (body ++ [c])) rest
    else scanFrom (.inside form (body ++ [c])) rest
  | .taking form body, c :: rest => scanFrom (.inside form (body ++ [c])) rest
  | .opening _, [] | .inside _ _, [] | .taking _ _, [] => none

/-- The tokens of a text. -/
def scan (t : Text) : Option (List Token) := scanFrom (.code false) t

example : scan "a = E'\\'' || 'x''y'".toList =
    some (codes "a = ".toList ++ quoted (.escape 'E') "\\'".toList :: codes " || ".toList ++
      [quoted .plain "x''y".toList]) := by decide

/-! ## Tokens that fit -/

/-- A body that ends at its delimiter: a delimiter inside is written twice, and a
backslash of an escape literal is not the last character. -/
inductive Enclosed (form : Quoting) : Text → Prop
  | nil : Enclosed form []
  | char {c : Char} {r : Text} (hd : c ≠ form.delimiter)
      (hb : form.escapes = true → c ≠ '\\') (h : Enclosed form r) : Enclosed form (c :: r)
  | doubled {r : Text} (h : Enclosed form r) :
      Enclosed form (form.delimiter :: form.delimiter :: r)
  | escaped (c : Char) {r : Text} (he : form.escapes = true) (h : Enclosed form r) :
      Enclosed form ('\\' :: c :: r)

theorem Enclosed.append {form : Quoting} {s t : Text} (hs : Enclosed form s)
    (ht : Enclosed form t) : Enclosed form (s ++ t) := by
  induction hs with
  | nil => exact ht
  | char hd hb _ ih => exact .char hd hb ih
  | doubled _ ih => exact .doubled ih
  | escaped c he _ ih => exact .escaped c he ih

/-- A body is enclosed if it is made of enclosed pieces. -/
theorem Enclosed.flatMap {form : Quoting} {α : Type} {f : α → Text} {xs : List α}
    (h : ∀ x ∈ xs, Enclosed form (f x)) : Enclosed form (xs.flatMap f) := by
  induction xs with
  | nil => exact .nil
  | cons x xs ih =>
    rw [List.flatMap_cons]
    exact (h x (by simp)).append (ih fun y hy => h y (by simp [hy]))

/-- A body without delimiters and backslashes is enclosed. -/
theorem Enclosed.of_forall {form : Quoting} {t : Text}
    (h : ∀ c ∈ t, c ≠ form.delimiter ∧ c ≠ '\\') : Enclosed form t := by
  induction t with
  | nil => exact .nil
  | cons c r ih =>
    exact .char (h c (by simp)).1 (fun _ => (h c (by simp)).2) (ih fun d hd => h d (by simp [hd]))

/-- The body of a plain literal may hold any character but a lone quote. -/
theorem Enclosed.plain_of_forall {t : Text} (h : ∀ c ∈ t, c ≠ '\'') : Enclosed .plain t := by
  induction t with
  | nil => exact .nil
  | cons c r ih =>
    exact .char (h c (by simp)) (fun he => by simp [Quoting.escapes] at he)
      (ih fun d hd => h d (by simp [hd]))

/-- Whether a quoted part of a form can begin behind a character of a word or not. -/
def Opens (inWord : Bool) : Quoting → Prop
  | .escape mark => isEscapeMark mark = true ∧ inWord = false
  | .plain | .name => True

/-- Tokens that keep their borders when they are written one behind the other. -/
def Fits : Bool → List Token → Prop
  | _, [] => True
  | inWord, .code c :: rest =>
    c ≠ '\'' ∧ c ≠ '"' ∧
      (isEscapeMark c = true → inWord = false → (spellAll rest).head? ≠ some '\'') ∧
      Fits (isWordChar c) rest
  | inWord, .quoted form body :: rest =>
    Opens inWord form ∧ Enclosed form body ∧ (spellAll rest).head? ≠ some form.delimiter ∧
      Fits false rest

/-! ## The tokens of a text are those that spell it and fit -/

/-- From inside of quotes the scanner finds the end of an enclosed body. -/
theorem scanFrom_inside {form : Quoting} {body : Text} (h : Enclosed form body)
    {rest : Text} (hr : rest.head? ≠ some form.delimiter) (acc : Text) :
    scanFrom (.inside form acc) (body ++ form.delimiter :: rest) =
      (scanFrom (.code false) rest).map (.quoted form (acc ++ body) :: ·) := by
  induction h generalizing acc with
  | nil => simp [scanFrom, hr]
  | @char c r hd hb _ ih =>
    have hescape : (form.escapes && c == '\\') = false := by
      cases he : form.escapes with
      | false => rfl
      | true => simpa using hb he
    rw [List.cons_append, scanFrom, if_neg hd, hescape, if_neg (by simp), ih]
    simp
  | doubled _ ih =>
    rw [List.cons_append, List.cons_append, scanFrom, if_pos rfl, if_pos List.head?_cons, scanFrom,
      ih]
    simp
  | escaped c he _ ih =>
    have hd : '\\' ≠ form.delimiter := by cases form <;> simp [Quoting.delimiter]
    rw [List.cons_append, List.cons_append, scanFrom, if_neg hd, he, if_pos (by simp), scanFrom,
      ih]
    simp

/-- Tokens that fit are read back. -/
theorem scanFrom_spellAll {inWord : Bool} {ts : List Token} (h : Fits inWord ts) :
    scanFrom (.code inWord) (spellAll ts) = some ts := by
  induction ts generalizing inWord with
  | nil => rfl
  | cons t rest ih =>
    cases t with
    | code c =>
      obtain ⟨hq, hn, hmark, hrest⟩ := h
      have hopen : (isEscapeMark c && !inWord && (spellAll rest).head? == some '\'') = false := by
        cases hm : isEscapeMark c <;> cases hw : inWord <;> simp
        exact hmark hm hw
      rw [spellAll_cons, spell, List.singleton_append, scanFrom, if_neg hq, if_neg hn, hopen,
        if_neg (by simp), ih hrest]
      rfl
    | quoted form body =>
      obtain ⟨hopens, henclosed, hhead, hrest⟩ := h
      have hinside := scanFrom_inside henclosed hhead []
      rw [ih hrest, Option.map_some, List.nil_append] at hinside
      cases form with
      | plain => simpa [spell, scanFrom, Quoting.lead, Quoting.delimiter] using hinside
      | name => simpa [spell, scanFrom, Quoting.lead, Quoting.delimiter] using hinside
      | escape mark =>
        obtain ⟨hm, rfl⟩ := hopens
        have hmark : mark ≠ '\'' ∧ mark ≠ '"' := by
          constructor <;> (rintro rfl; simp [isEscapeMark] at hm)
        simpa [spell, scanFrom, Quoting.lead, Quoting.delimiter, hm, hmark.1, hmark.2]
          using hinside

/-- What the tokens of a text are that begins inside of quotes, behind a part of the body. -/
def ReadInside (ts : List Token) (form : Quoting) (before t : Text) : Prop :=
  ∃ body rest, ts = .quoted form (before ++ body) :: rest ∧
    t = body ++ form.delimiter :: spellAll rest ∧ Enclosed form body ∧
    (spellAll rest).head? ≠ some form.delimiter ∧ Fits false rest

/-- What the tokens of a text are that a scanner reads from a place. -/
def ReadFrom (ts : List Token) : Place → Text → Prop
  | .code inWord, t => spellAll ts = t ∧ Fits inWord ts
  | .opening form, t => ∃ c rest, t = c :: rest ∧ ReadInside ts form [] rest
  | .inside form before, t => ReadInside ts form before t
  | .taking form before, t => ∃ c rest, t = c :: rest ∧ ReadInside ts form (before ++ [c]) rest

/-- A body grows at its front by a piece that keeps it enclosed. -/
theorem ReadInside.prepend {ts : List Token} {form : Quoting} {before piece t : Text}
    (h : ReadInside ts form (before ++ piece) t)
    (hpiece : ∀ body, Enclosed form body → Enclosed form (piece ++ body)) :
    ReadInside ts form before (piece ++ t) := by
  obtain ⟨body, rest, rfl, rfl, henclosed, hhead, hfits⟩ := h
  exact ⟨piece ++ body, rest, by simp, by simp, hpiece body henclosed, hhead, hfits⟩

/-- Every scan that succeeds has read its text; the induction is on the text, over all
places at once. -/
theorem readFrom_of_scanFrom {place : Place} {t : Text} {ts : List Token}
    (h : scanFrom place t = some ts) : ReadFrom ts place t := by
  induction t generalizing place ts with
  | nil =>
    cases place with
    | code inWord =>
      obtain rfl : [] = ts := by simpa [scanFrom] using h
      exact ⟨rfl, trivial⟩
    | opening | inside | taking => simp [scanFrom] at h
  | cons c rest ih =>
    cases place with
    | code inWord =>
      rw [scanFrom] at h
      split_ifs at h with hq hn hm
      · subst hq
        obtain ⟨body, us, rfl, rfl, henclosed, hhead, hfits⟩ := ih h
        exact ⟨by simp [spell, Quoting.lead, Quoting.delimiter], trivial, henclosed, hhead, hfits⟩
      · subst hn
        obtain ⟨body, us, rfl, rfl, henclosed, hhead, hfits⟩ := ih h
        exact ⟨by simp [spell, Quoting.lead, Quoting.delimiter], trivial, henclosed, hhead, hfits⟩
      · obtain ⟨d, _, rfl, body, us, rfl, rfl, henclosed, hhead, hfits⟩ := ih h
        simp only [Bool.and_eq_true, Bool.not_eq_true', beq_iff_eq, List.head?_cons,
          Option.some.injEq] at hm
        obtain ⟨⟨hmark, hword⟩, rfl⟩ := hm
        exact ⟨by simp [spell, Quoting.lead, Quoting.delimiter], ⟨hmark, hword⟩, henclosed, hhead,
          hfits⟩
      · obtain ⟨us, hus, rfl⟩ := Option.map_eq_some_iff.1 h
        obtain ⟨rfl, hfits⟩ := ih hus
        refine ⟨rfl, hq, hn, ?_, hfits⟩
        intro hmark hword hhead
        exact hm (by simp [hmark, hword, hhead])
    | opening form => exact ⟨c, rest, rfl, ih h⟩
    | taking form before => exact ⟨c, rest, rfl, ih h⟩
    | inside form before =>
      rw [scanFrom] at h
      split_ifs at h with hd hdouble hescape
      · obtain ⟨d, r, rfl, hread⟩ := ih h
        rw [List.head?_cons, Option.some.injEq] at hdouble
        subst hd hdouble
        rw [List.append_assoc] at hread
        exact hread.prepend fun body hbody => .doubled hbody
      · obtain ⟨us, hus, rfl⟩ := Option.map_eq_some_iff.1 h
        obtain ⟨rfl, hfits⟩ := ih hus
        exact ⟨[], us, by simp, by simp [hd], .nil, hdouble, hfits⟩
      · obtain ⟨d, r, rfl, hread⟩ := ih h
        obtain ⟨he, rfl⟩ : form.escapes = true ∧ c = '\\' := by simpa using hescape
        rw [List.append_assoc] at hread
        exact hread.prepend fun body hbody => .escaped d he hbody
      · have hread := ih h
        have hgrow : ∀ body, Enclosed form body → Enclosed form ([c] ++ body) := by
          intro body hbody
          refine .char hd ?_ hbody
          intro he hc
          exact hescape (by simp [he, hc])
        exact hread.prepend hgrow

/-- The tokens of a text are those that spell it and fit. -/
theorem scanFrom_eq_some_iff {inWord : Bool} {t : Text} {ts : List Token} :
    scanFrom (.code inWord) t = some ts ↔ spellAll ts = t ∧ Fits inWord ts := by
  constructor
  · exact readFrom_of_scanFrom
  · rintro ⟨rfl, h⟩
    exact scanFrom_spellAll h

theorem scan_eq_some_iff {t : Text} {ts : List Token} :
    scan t = some ts ↔ spellAll ts = t ∧ Fits false ts :=
  scanFrom_eq_some_iff

/-! ## Separators -/

/-- The characters that keep apart what stands on their two sides. -/
def isSeparator (c : Char) : Bool := c ∈ [' ', ',', '(', ')', '.']

theorem isSeparator_cases {c : Char} (hc : isSeparator c = true) :
    c = ' ' ∨ c = ',' ∨ c = '(' ∨ c = ')' ∨ c = '.' := by
  simpa [isSeparator] using hc

theorem head?_spellAll_cons (t : Token) (ts us : List Token) :
    (spellAll (t :: ts)).head? = (spellAll (t :: us)).head? := by
  rw [spellAll_cons, spellAll_cons, List.head?_append_of_ne_nil _ t.spell_ne_nil,
    List.head?_append_of_ne_nil _ t.spell_ne_nil]

/-- A separator behind tokens is no delimiter. -/
theorem head?_spellAll_separator {c d : Char} (hc : isSeparator c = true)
    (hd : d = '\'' ∨ d = '"') (ts us : List Token) :
    (spellAll (ts ++ code c :: us)).head? ≠ some d ↔ (spellAll ts).head? ≠ some d := by
  cases ts with
  | nil =>
    have hne : c ≠ d := by
      rintro rfl
      rcases hd with rfl | rfl <;> simp [isSeparator] at hc
    simp [spell, hne]
  | cons t ts => rw [List.cons_append, head?_spellAll_cons t _ ts]

theorem delimiter_cases (form : Quoting) :
    form.delimiter = '\'' ∨ form.delimiter = '"' := by
  cases form <;> simp [Quoting.delimiter]

/-- Behind a separator tokens fit as they do at the beginning of a text. -/
theorem fits_separator {c : Char} (hc : isSeparator c = true) (inWord : Bool)
    (us : List Token) : Fits inWord (code c :: us) ↔ Fits false us := by
  rcases isSeparator_cases hc with rfl | rfl | rfl | rfl | rfl <;>
    simp [Fits, isEscapeMark, isWordChar]

/-- A separator keeps apart what stands on its two sides, so both fit on their own. -/
theorem fits_append_separator {c : Char} (hc : isSeparator c = true) (inWord : Bool)
    (ts us : List Token) :
    Fits inWord (ts ++ code c :: us) ↔ Fits inWord ts ∧ Fits false us := by
  induction ts generalizing inWord with
  | nil => simp [Fits, fits_separator hc]
  | cons t ts ih =>
    cases t with
    | code d =>
      rw [List.cons_append, Fits, Fits, head?_spellAll_separator hc (.inl rfl), ih]
      tauto
    | quoted form body =>
      rw [List.cons_append, Fits, Fits, head?_spellAll_separator hc (delimiter_cases form), ih]
      tauto

/-- Text without quotes fits. -/
theorem fits_codes {t : Text} (h : ∀ c ∈ t, c ≠ '\'' ∧ c ≠ '"') (inWord : Bool) :
    Fits inWord (codes t) := by
  induction t generalizing inWord with
  | nil => trivial
  | cons c r ih =>
    obtain ⟨hq, hn⟩ := h c (by simp)
    have hr : ∀ d ∈ r, d ≠ '\'' ∧ d ≠ '"' := fun d hd => h d (by simp [hd])
    refine ⟨hq, hn, fun _ _ hhead => ?_, ih hr _⟩
    change (spellAll (codes r)).head? = some '\'' at hhead
    rw [spellAll_codes] at hhead
    exact (hr _ (List.mem_of_head? hhead)).1 rfl

end Token

end SqlCompose
