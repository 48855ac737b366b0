import SqlCompose.Proofs.Reading.Literal

/-!
# Text that hides nothing

Tokens are `Clear` when nothing but string literals takes characters out of
the code: there is no quoted name, no dollar sign, no backslash and no
comment among them, and every literal stands at the beginning or behind a
separator.  PostgreSQL has no other way of quoting, so it cuts a clear text
exactly as `scan` does (`Clear.fits`).

Clear tokens are closed under everything that the library does to written
text: a separator between two runs (`Clear.append_separator`), and parts
(`Clear.of_isInfix`), in particular the text without its outer blanks
(`spellAll_trimTokens`) and without a mark at its front (`exists_codes_append`).
-/

namespace SqlCompose

/-- Whether a character outside of quotes only stands for itself. -/
def isInert (c : Char) : Bool := c ∉ ['\'', '"', '\\', '$']

/-- Whether two neighbours open a comment. -/
def opensComment (a b : Char) : Bool := (a == '-' && b == '-') || (a == '/' && b == '*')

/-- Text without quote characters, backslashes, dollar signs and comment openers. -/
def Inert (t : Text) : Prop :=
  (∀ c ∈ t, isInert c = true) ∧ t.IsChain fun a b => opensComment a b = false

instance (t : Text) : Decidable (Inert t) :=
  decidable_of_iff (t.all isInert = true ∧ t.IsChain fun a b => opensComment a b = false)
    (and_congr_left' List.all_eq_true)

/-- A part of an inert text is inert. -/
theorem Inert.of_isInfix {s t : Text} (h : Inert t) (hs : s <:+: t) : Inert s :=
  ⟨fun c hc => h.1 c (hs.subset hc), List.IsChain.infix h.2 hs⟩

namespace Token

/-- Whether a token is an inert character or a well-written string literal. -/
def Safe : Token → Prop
  | code c => isInert c = true
  | quoted form body => (form = .plain ∨ form = .escape 'E') ∧ Enclosed form body

/-- Whether two tokens can be neighbours: no comment begins between them, and a literal
stands behind a separator. -/
def Beside : Token → Token → Prop
  | code a, code b => opensComment a b = false
  | code a, quoted _ _ => isSeparator a = true
  | quoted _ _, code _ => True
  | quoted _ _, quoted _ _ => False

/-- Only string literals take characters out of the code. -/
structure Clear (ts : List Token) : Prop where
  safe : ∀ t ∈ ts, t.Safe
  chain : ts.IsChain Beside

theorem Clear.nil : Clear [] := ⟨by simp, .nil⟩

theorem Clear.of_isInfix {ts us : List Token} (h : Clear us) (hts : ts <:+: us) : Clear ts :=
  ⟨fun t ht => h.safe t (hts.subset ht), List.IsChain.infix h.chain hts⟩

theorem Clear.tail {t : Token} {ts : List Token} (h : Clear (t :: ts)) : Clear ts :=
  h.of_isInfix (List.suffix_cons t ts).isInfix

theorem clear_codes {t : Text} (h : Inert t) : Clear (codes t) := by
  refine ⟨?_, ?_⟩
  · intro u hu
    obtain ⟨c, hc, rfl⟩ := List.mem_map.1 hu
    exact h.1 c hc
  · rw [codes, List.isChain_map]
    exact h.2

theorem clear_singleton {t : Token} (h : t.Safe) : Clear [t] :=
  ⟨by simpa using h, .singleton t⟩

theorem safe_ofText (t : Text) : (ofText t).Safe := by
  cases h : ofText t with
  | code c =>
    have := isLiteral_ofText t
    simp [h, isLiteral] at this
  | quoted form body =>
    refine ⟨?_, enclosed_ofText h⟩
    unfold ofText at h
    split at h
    · exact .inr (Token.quoted.inj h).1.symm
    · exact .inl (Token.quoted.inj h).1.symm

theorem not_opensComment_of_separator {c : Char} (hc : isSeparator c = true) (d : Char) :
    opensComment c d = false ∧ opensComment d c = false := by
  rcases isSeparator_cases hc with rfl | rfl | rfl | rfl | rfl <;> simp [opensComment]

theorem isInert_of_isSeparator {c : Char} (hc : isSeparator c = true) : isInert c = true := by
  rcases isSeparator_cases hc with rfl | rfl | rfl | rfl | rfl <;> decide

theorem beside_separator {c : Char} (hc : isSeparator c = true) (t : Token) :
    Beside (code c) t ∧ Beside t (code c) := by
  cases t with
  | code d => exact not_opensComment_of_separator hc d
  | quoted form body => exact ⟨hc, trivial⟩

/-- A separator keeps what stands on its two sides clear. -/
theorem Clear.append_separator {c : Char} {ts us : List Token} (hc : isSeparator c = true)
    (hts : Clear ts) (hus : Clear us) : Clear (ts ++ code c :: us) := by
  refine ⟨?_, ?_⟩
  · intro t ht
    rcases List.mem_append.1 ht with ht | ht
    · exact hts.safe t ht
    · rcases List.mem_cons.1 ht with rfl | ht
      · exact isInert_of_isSeparator hc
      · exact hus.safe t ht
  · rw [List.isChain_append]
    refine ⟨hts.chain, ?_, ?_⟩
    · rw [List.isChain_cons]
      exact ⟨fun t _ => (beside_separator hc t).1, hus.chain⟩
    · intro t _ u hu
      obtain rfl : code c = u := by simpa using hu
      exact (beside_separator hc t).2

/-- Clear tokens keep their borders. -/
theorem Clear.fits_of_head {ts : List Token} (h : Clear ts) {inWord : Bool}
    (hhead : ∀ form body, ts.head? = some (quoted form body) → inWord = false) :
    Fits inWord ts := by
  induction ts generalizing inWord with
  | nil => trivial
  | cons t rest ih =>
    have hnext : ∀ u ∈ rest.head?, Beside t u := (List.isChain_cons.1 h.chain).1
    have hinert : ∀ c us, rest = code c :: us → isInert c = true := fun c us he =>
      h.safe (code c) (by simp [he])
    cases t with
    | code c =>
      have hc : isInert c = true := h.safe (code c) (by simp)
      have hseparator : ∀ form body, rest.head? = some (quoted form body) →
          isSeparator c = true := fun form body hr => hnext _ hr
      refine ⟨?_, ?_, ?_, ih h.tail ?_⟩
      · rintro rfl
        simp [isInert] at hc
      · rintro rfl
        simp [isInert] at hc
      · intro hmark _ hquote
        cases rest with
        | nil => simp at hquote
        | cons u us =>
          cases u with
          | code d =>
            obtain rfl : d = '\'' := by simpa [spell] using hquote
            have := hinert _ us rfl
            simp [isInert] at this
          | quoted form body =>
            have := hseparator form body rfl
            simp only [isEscapeMark, Bool.or_eq_true, beq_iff_eq] at hmark
            rcases hmark with rfl | rfl <;> simp [isSeparator] at this
      · intro form body hr
        rcases isSeparator_cases (hseparator form body hr) with rfl | rfl | rfl | rfl | rfl <;>
          decide
    | quoted form body =>
      obtain ⟨hform, henclosed⟩ := h.safe (quoted form body) (by simp)
      have hdelimiter : form.delimiter = '\'' := by rcases hform with rfl | rfl <;> rfl
      refine ⟨?_, henclosed, ?_, ih h.tail fun _ _ _ => rfl⟩
      · rcases hform with rfl | rfl
        · trivial
        · exact ⟨rfl, hhead _ _ rfl⟩
      · rw [hdelimiter]
        cases rest with
        | nil => simp
        | cons u us =>
          cases u with
          | code d =>
            have := hinert d us rfl
            intro hquote
            obtain rfl : d = '\'' := by simpa [spell] using hquote
            simp [isInert] at this
          | quoted form' body' => exact absurd (hnext _ rfl) id

theorem Clear.fits {ts : List Token} (h : Clear ts) : Fits false ts :=
  h.fits_of_head fun _ _ _ => rfl

/-- A text is cut into clear tokens in one way. -/
theorem Clear.unique {ts us : List Token} (hts : Clear ts) (hus : Clear us)
    (h : spellAll ts = spellAll us) : ts = us := by
  have hscan := scan_eq_some_iff.2 ⟨h, hts.fits⟩
  rw [scan_eq_some_iff.2 ⟨rfl, hus.fits⟩] at hscan
  exact (Option.some.inj hscan).symm

end Token

end SqlCompose
