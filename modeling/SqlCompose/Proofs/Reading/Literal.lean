import SqlCompose.Proofs.Reading.Token
import SqlCompose.Value.Quote

/-!
# String literals

What a string literal means.  In a plain literal a quote written twice is one
quote; an escape literal also has backslash escapes, with `\u` and four
hexadecimal digits for a character by its number.

`Token.ofText` is the one token that `Text.quote` writes.  `spell_ofText`,
`enclosed_ofText` and `content_ofText` are its theory: it is written as the
library quotes, it ends where it should, and it means the text without its
NUL characters, which no literal can hold.
-/

namespace SqlCompose

/-- Text without its NUL characters. -/
def Text.withoutNul (t : Text) : Text := t.filter (· ≠ '\x00')

namespace Token

/-! ## Reading -/

/-- What the body of a plain literal means. -/
def readPlain : Text → Text
  | '\'' :: '\'' :: r => '\'' :: readPlain r
  | c :: r => c :: readPlain r
  | [] => []

/-- The number that hexadecimal digits denote. -/
def hexNumber? (digits : Text) : Option Nat :=
  digits.foldlM (fun n c => (Text.hexDigit? c).map (16 * n + ·)) 0

/-- What a character means behind a backslash, if it needs no digits. -/
def simpleEscape? (c : Char) : Option Char :=
  match c with
  | 'b' => some '\x08'
  | 'f' => some '\x0c'
  | 'n' => some '\n'
  | 'r' => some '\r'
  | 't' => some '\t'
  | 'u' | 'U' | 'x' => none
  | c => if c.isDigit then none else some c

/-- What the body of an escape literal means.  An escape by number of bytes, or with
eight digits, is not read. -/
def readEscape : Text → Option Text
  | [] => some []
  | '\'' :: '\'' :: r => (readEscape r).map ('\'' :: ·)
  | '\\' :: 'u' :: h₁ :: h₂ :: h₃ :: h₄ :: r => do
    let n ← hexNumber? [h₁, h₂, h₃, h₄]
    if n.isValidChar ∧ n ≠ 0 then (readEscape r).map (Char.ofNat n :: ·) else none
  | '\\' :: c :: r => do
    let d ← simpleEscape? c
    (readEscape r).map (d :: ·)
  | ['\\'] => none
  | c :: r => (readEscape r).map (c :: ·)

/-- Whether a token is a string literal. -/
def isLiteral : Token → Bool
  | quoted .plain _ | quoted (.escape _) _ => true
  | quoted .name _ | code _ => false

/-- What a string literal means. -/
def content : Token → Option Text
  | quoted .plain body => some (readPlain body)
  | quoted (.escape _) body => readEscape body
  | quoted .name _ | code _ => none

section

variable {form : Quoting} {c : Char}

theorem readPlain_cons_of_ne (hc : c ≠ '\'') (r : Text) :
    readPlain (c :: r) = c :: readPlain r := by
  rw [readPlain]
  intro _ h
  exact absurd h hc

theorem readEscape_cons_of_ne (hq : c ≠ '\'') (hb : c ≠ '\\') (r : Text) :
    readEscape (c :: r) = (readEscape r).map (c :: ·) := by
  rw [readEscape]
  · intro _ h
    exact absurd h hq
  · intro _ _ _ _ _ h
    exact absurd h hb
  · intro _ _ h
    exact absurd h hb
  · intro h
    exact absurd h hb

theorem content_doubled (hform : form.delimiter = '\'') (r : Text) :
    (quoted form ('\'' :: '\'' :: r)).content = (quoted form r).content.map ('\'' :: ·) := by
  cases form with
  | plain => rfl
  | escape mark => rfl
  | name => cases hform

theorem content_cons (hform : form.delimiter = '\'') (hquote : c ≠ '\'')
    (hslash : form.escapes = true → c ≠ '\\') (r : Text) :
    (quoted form (c :: r)).content = (quoted form r).content.map (c :: ·) := by
  cases form with
  | plain => exact congrArg some (readPlain_cons_of_ne hquote r)
  | escape mark => exact readEscape_cons_of_ne hquote (hslash rfl) r
  | name => cases hform

end

/-- What denotes a number is made of digits. -/
theorem isSome_hexDigit?_of_hexNumber? {digits : Text} {n : Nat} (h : hexNumber? digits = some n) :
    ∀ c ∈ digits, (Text.hexDigit? c).isSome = true := by
  rw [hexNumber?] at h
  generalize 0 = start at h
  induction digits generalizing start with
  | nil => simp
  | cons c digits ih =>
    rw [List.foldlM_cons, Option.bind_eq_bind, Option.bind_eq_some_iff] at h
    obtain ⟨next, hdigit, hrest⟩ := h
    obtain ⟨k, hk, -⟩ := Option.map_eq_some_iff.1 hdigit
    exact List.forall_mem_cons.2 ⟨by rw [hk]; rfl, ih next hrest⟩

/-- The string literals among tokens, each as what it means. -/
def literals (ts : List Token) : List (Option Text) := (ts.filter isLiteral).map content

@[simp] theorem literals_nil : literals [] = [] := rfl

@[simp] theorem literals_append (ts us : List Token) :
    literals (ts ++ us) = literals ts ++ literals us := by
  simp [literals]

@[simp] theorem literals_code (c : Char) (ts : List Token) :
    literals (code c :: ts) = literals ts := rfl

@[simp] theorem literals_codes (t : Text) : literals (codes t) = [] := by
  induction t with
  | nil => rfl
  | cons c r ih => simpa [codes] using ih

/-! ## The literal of a text -/

/-- The token that a text is quoted as. -/
def ofText (t : Text) : Token :=
  if t.any Text.needsEscape then quoted (.escape 'E') (t.flatMap Text.escapePiece)
  else quoted .plain (t.flatMap Text.plainPiece)

theorem spell_ofText (t : Text) : (ofText t).spell = t.quote := by
  unfold ofText Text.quote
  split <;> simp [spell, Quoting.lead, Quoting.delimiter]

theorem isLiteral_ofText (t : Text) : (ofText t).isLiteral = true := by
  unfold ofText
  split <;> rfl

theorem enclosed_plainPiece (c : Char) : Enclosed .plain (Text.plainPiece c) := by
  unfold Text.plainPiece
  split
  · exact .doubled .nil
  · rename_i hc
    exact .plain_of_forall fun d hd => by simpa [List.mem_singleton.1 hd] using hc

/-- A body without quotes means itself. -/
theorem readPlain_eq_self {t : Text} (h : ∀ c ∈ t, c ≠ '\'') : readPlain t = t := by
  induction t with
  | nil => rfl
  | cons c r ih =>
    rw [readPlain_cons_of_ne (h c (by simp)), ih fun d hd => h d (by simp [hd])]

theorem readPlain_flatMap_plainPiece (t : Text) : readPlain (t.flatMap Text.plainPiece) = t := by
  induction t with
  | nil => rfl
  | cons c r ih =>
    rw [List.flatMap_cons, Text.plainPiece]
    split
    · rename_i hc
      rw [List.cons_append, List.cons_append, List.nil_append, readPlain, ih, hc]
    · rename_i hc
      rw [List.cons_append, List.nil_append, readPlain_cons_of_ne hc, ih]

/-- The hexadecimal digits of the library are read back, in upper case too. -/
theorem hexDigit?_upper_digitChar : ∀ k < 16,
    Text.hexDigit? (Nat.digitChar k).toUpper = some k := by
  decide

theorem upper_fixedDigits_four (n : Nat) :
    Text.upper (Text.fixedDigits 16 4 n) =
      [(Nat.digitChar (n / 4096 % 16)).toUpper, (Nat.digitChar (n / 256 % 16)).toUpper,
        (Nat.digitChar (n / 16 % 16)).toUpper, (Nat.digitChar (n % 16)).toUpper] := by
  simp [Text.fixedDigits, Text.upper, Nat.div_div_eq_div_mul]

theorem hexNumber?_upper_fixedDigits {n : Nat} (hn : n < 65536) :
    hexNumber? (Text.upper (Text.fixedDigits 16 4 n)) = some n := by
  rw [upper_fixedDigits_four]
  simp only [hexNumber?, List.foldlM_cons, List.foldlM_nil,
    hexDigit?_upper_digitChar _ (Nat.mod_lt _ (show 16 > 0 by decide))]
  simp only [Option.map_some, Option.bind_eq_bind, Option.bind_some, Option.pure_def]
  congr 1
  omega

theorem toNat_lt_of_isControl {c : Char} (h : isControl c = true) : c.toNat < 160 := by
  simp only [isControl, Bool.or_eq_true, Bool.and_eq_true, decide_eq_true_eq] at h
  omega

/-- A control character is read back from its number. -/
theorem readEscape_numbered {c : Char} (hc : isControl c = true) (hnul : c ≠ '\x00') (r : Text) :
    readEscape ('\\' :: 'u' :: Text.upper (Text.fixedDigits 16 4 c.toNat) ++ r) =
      (readEscape r).map (c :: ·) := by
  have hlt := toNat_lt_of_isControl hc
  have hnumber := hexNumber?_upper_fixedDigits (n := c.toNat) (by omega)
  have hvalid : c.toNat.isValidChar ∧ c.toNat ≠ 0 := by
    refine ⟨.inl (by omega), fun h => hnul ?_⟩
    rw [← Char.ofNat_toNat c, h]
  rw [upper_fixedDigits_four] at hnumber ⊢
  simp only [List.cons_append, List.nil_append, readEscape]
  rw [hnumber, Option.bind_eq_bind, Option.bind_some, if_pos hvalid, Char.ofNat_toNat]

/-- Each character is read back from its piece, except NUL, which has none. -/
theorem readEscape_escapePiece (c : Char) (r : Text) :
    readEscape (Text.escapePiece c ++ r) =
      (readEscape r).map (Text.withoutNul [c] ++ ·) := by
  have hkeep : ∀ d : Char, d ≠ '\x00' → Text.withoutNul [d] = [d] := by
    intro d hd
    simp [Text.withoutNul, hd]
  unfold Text.escapePiece
  split
  · simp [Text.withoutNul]
  · rfl
  · rfl
  · rfl
  · rfl
  · rfl
  · rfl
  · rfl
  · rename_i hnul hq hb _ _ _ _ _
    rw [hkeep c hnul]
    split
    · rename_i hc
      exact readEscape_numbered hc hnul r
    · exact readEscape_cons_of_ne hq hb r

theorem readEscape_flatMap_escapePiece (t : Text) :
    readEscape (t.flatMap Text.escapePiece) = some t.withoutNul := by
  induction t with
  | nil => rfl
  | cons c r ih =>
    rw [List.flatMap_cons, readEscape_escapePiece, ih, Option.map_some]
    simp [Text.withoutNul, List.filter_cons]
    split <;> rfl

theorem enclosed_escapePiece (c : Char) : Enclosed (.escape 'E') (Text.escapePiece c) := by
  have hdigit : ∀ k < 16, (Nat.digitChar k).toUpper ≠ '\'' ∧ (Nat.digitChar k).toUpper ≠ '\\' := by
    decide
  have hmod : ∀ n : Nat, n % 16 < 16 := fun n => Nat.mod_lt n (by decide)
  unfold Text.escapePiece
  split
  · exact .nil
  · exact .doubled .nil
  · exact .escaped _ rfl .nil
  · exact .escaped _ rfl .nil
  · exact .escaped _ rfl .nil
  · exact .escaped _ rfl .nil
  · exact .escaped _ rfl .nil
  · exact .escaped _ rfl .nil
  · rename_i hnul hq hb _ _ _ _ _
    split
    · rw [upper_fixedDigits_four]
      refine .escaped _ rfl (.of_forall ?_)
      simp only [List.forall_mem_cons, Quoting.delimiter]
      exact ⟨hdigit _ (hmod _), hdigit _ (hmod _), hdigit _ (hmod _), hdigit _ (hmod _),
        fun _ h => absurd h List.not_mem_nil⟩
    · refine .of_forall ?_
      simpa [Quoting.delimiter] using ⟨hq, hb⟩

/-- The quoted body of a text ends where it should. -/
theorem enclosed_ofText {t : Text} {form : Quoting} {body : Text}
    (h : ofText t = quoted form body) : Enclosed form body := by
  unfold ofText at h
  split at h
  · obtain ⟨rfl, rfl⟩ := Token.quoted.inj h
    exact .flatMap fun c _ => enclosed_escapePiece c
  · obtain ⟨rfl, rfl⟩ := Token.quoted.inj h
    exact .flatMap fun c _ => enclosed_plainPiece c

/-- The literal of a text means the text without its NUL characters. -/
theorem content_ofText (t : Text) : (ofText t).content = some t.withoutNul := by
  unfold ofText
  split
  · exact readEscape_flatMap_escapePiece t
  · rename_i hplain
    -- NUL is a control character, so a plain literal has none to lose
    have hnul : t.withoutNul = t := by
      rw [Text.withoutNul, List.filter_eq_self]
      intro c hc
      simp only [ne_eq, decide_eq_true_eq]
      rintro rfl
      exact hplain (List.any_eq_true.2 ⟨_, hc, by decide⟩)
    rw [content, readPlain_flatMap_plainPiece, hnul]

end Token

end SqlCompose
