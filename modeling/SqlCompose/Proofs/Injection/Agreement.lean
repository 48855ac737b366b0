import SqlCompose.Condition.Basic
import SqlCompose.Proofs.Reading.Clear
import SqlCompose.Proofs.Reading.Edge

/-!
# Written texts that differ in their literals only

`Agree written template contents` says that two texts are cut into the same
tokens, except for what stands inside of their literals, and that the
literals of the first mean `contents`, in order.  Both texts are clear, so
nothing in a literal can end it or begin another one.

There are three groups of lemmas.

* What an agreement decides: whether a text is empty, and whether it begins
  with a mark (`isEmpty_eq`, `marked_eq`).  The library asks both of texts
  that it has written already.
* What keeps an agreement: a separator between two texts (`separated`),
  trimming (`trim`) and taking a mark away (`withoutMark`).
* Lists of texts.  `AgreeAll` is an agreement piece by piece, and the
  library's ways of joining pieces turn it into one of the whole.
-/

namespace SqlCompose

namespace Token

/-! ## Outlines -/

/-- A token with nothing in it, if it is a literal. -/
def erase : Token → Token
  | code c => code c
  | quoted .name body => quoted .name body
  | quoted .plain _ | quoted (.escape _) _ => quoted .plain []

/-- The tokens of a text with nothing in its literals. -/
def outline (ts : List Token) : List Token := ts.map erase

@[simp] theorem outline_append (ts us : List Token) :
    outline (ts ++ us) = outline ts ++ outline us := by
  simp [outline]

theorem erase_eq_code_iff {t : Token} {c : Char} : t.erase = code c ↔ t = code c := by
  cases t with
  | code d => simp [erase]
  | quoted form body => cases form <;> simp [erase]

theorem isBlankCode_erase (t : Token) : t.erase.isBlankCode = t.isBlankCode := by
  cases t with
  | code c => rfl
  | quoted form body => cases form <;> rfl

theorem outline_trimTokens (ts : List Token) :
    outline (trimTokens ts) = trimTokens (outline ts) := by
  have hblank : isBlankCode ∘ erase = isBlankCode := funext isBlankCode_erase
  simp [outline, trimTokens, dropEnds, List.dropWhile_map, ← List.map_reverse, hblank]

theorem literals_dropWhile (ts : List Token) :
    literals (ts.dropWhile isBlankCode) = literals ts := by
  induction ts with
  | nil => rfl
  | cons t ts ih =>
    rw [List.dropWhile_cons]
    split
    · cases t with
      | code c => rw [ih, literals_code]
      | quoted form body => rename_i h; simp [isBlankCode] at h
    · rfl

theorem literals_reverse (ts : List Token) : literals ts.reverse = (literals ts).reverse := by
  simp [literals, List.filter_reverse]

theorem literals_trimTokens (ts : List Token) : literals (trimTokens ts) = literals ts := by
  rw [trimTokens, dropEnds, literals_reverse, literals_dropWhile, literals_reverse,
    List.reverse_reverse, literals_dropWhile]

/-- A mark at the front is seen in the outline. -/
theorem exists_codes_of_outline_eq {mark : Text} {ts us : List Token}
    (h : outline us = outline (codes mark ++ ts)) :
    ∃ us', us = codes mark ++ us' ∧ outline us' = outline ts := by
  induction mark generalizing us with
  | nil => exact ⟨us, rfl, h⟩
  | cons c mark ih =>
    cases us with
    | nil => simp [outline, codes] at h
    | cons u us =>
      obtain ⟨hu, hus⟩ : u.erase = code c ∧ outline us = outline (codes mark ++ ts) := by
        simpa [outline, codes, erase] using h
      obtain rfl : u = code c := erase_eq_code_iff.1 hu
      obtain ⟨us', rfl, hus'⟩ := ih hus
      exact ⟨us', rfl, hus'⟩

theorem Clear.lead_eq {ts : List Token} (h : Clear ts) {mark : Char} {body : Text}
    (hmem : quoted (.escape mark) body ∈ ts) : mark = 'E' := by
  have hsafe := (h.safe _ hmem).1
  simpa using hsafe

end Token

open Token

theorem Inert.trim {t : Text} (h : Inert t) : Inert t.trim :=
  h.of_isInfix (dropEnds_isInfix isBlank t)

/-! ## Agreement of two texts -/

/-- Two texts that differ in their literals only, where those of the first mean `contents`. -/
def Agree (written template : Text) (contents : List Text) : Prop :=
  ∃ ts us, spellAll ts = written ∧ spellAll us = template ∧ Clear ts ∧ Clear us ∧
    outline ts = outline us ∧ literals ts = contents.map some

namespace Agree

variable {a a' b b' t : Text} {x y : List Text}

theorem nil : Agree [] [] [] := ⟨[], [], rfl, rfl, .nil, .nil, rfl, rfl⟩

theorem verbatim (h : Inert t) : Agree t t [] :=
  ⟨codes t, codes t, spellAll_codes t, spellAll_codes t, clear_codes h, clear_codes h, rfl,
    literals_codes t⟩

theorem separated {c : Char} (hc : isSeparator c = true) (ha : Agree a a' x) (hb : Agree b b' y) :
    Agree (a ++ c :: b) (a' ++ c :: b') (x ++ y) := by
  obtain ⟨ts, us, rfl, rfl, hts, hus, houtline, hliterals⟩ := ha
  obtain ⟨ts', us', rfl, rfl, hts', hus', houtline', hliterals'⟩ := hb
  refine ⟨ts ++ code c :: ts', us ++ code c :: us', ?_, ?_, hts.append_separator hc hts',
    hus.append_separator hc hus', ?_, ?_⟩
  · simp [spell]
  · simp [spell]
  · have hcode : ∀ vs, outline (code c :: vs) = code c :: outline vs := fun _ => rfl
    rw [outline_append, outline_append, hcode, hcode, houtline, houtline']
  · rw [literals_append, literals_code, hliterals, hliterals', List.map_append]

/-! ### What an agreement decides -/

theorem eq_nil_iff (h : Agree a b x) : a = [] ↔ b = [] := by
  obtain ⟨ts, us, rfl, rfl, -, -, houtline, -⟩ := h
  have hnil : ∀ vs : List Token, spellAll vs = [] ↔ vs = [] := by
    intro vs
    cases vs with
    | nil => simp
    | cons v vs => simp [spell_ne_nil v]
  have hlength : ts.length = us.length := by simpa [outline] using congrArg List.length houtline
  rw [hnil, hnil, ← List.length_eq_zero_iff, ← List.length_eq_zero_iff, hlength]

theorem isEmpty_eq (h : Agree a b x) : a.isEmpty = b.isEmpty := by
  rw [Bool.eq_iff_iff, List.isEmpty_iff, List.isEmpty_iff, h.eq_nil_iff]

/-- An empty text has no literals. -/
theorem contents_eq_nil (h : Agree [] b x) : x = [] := by
  obtain ⟨ts, us, hts, -, -, -, -, hliterals⟩ := h
  cases ts with
  | nil => simpa using hliterals.symm
  | cons v vs => simp [spell_ne_nil v] at hts

theorem inert_mark : ∀ c ∈ Condition.mark, c ≠ '\'' ∧ c ≠ '"' ∧ isEscapeMark c = false := by
  simp [Condition.mark, lit, isEscapeMark]

/-- A text begins with a mark if the other one does, and then they agree behind it. -/
theorem exists_behind_mark {r : Text} (h : Agree (Condition.mark ++ r) b x) :
    ∃ r', b = Condition.mark ++ r' ∧ Agree r r' x := by
  obtain ⟨ts, us, hspell, rfl, hts, hus, houtline, hliterals⟩ := h
  have hlead : ∀ e body, quoted (.escape e) body ∈ ts → isEscapeMark e = true := by
    intro e body hmem
    rw [hts.lead_eq hmem]
    rfl
  obtain ⟨ts, rfl, rfl⟩ := exists_codes_append inert_mark hlead hspell
  obtain ⟨us, rfl, hbehind⟩ := exists_codes_of_outline_eq houtline.symm
  refine ⟨spellAll us, by simp, ts, us, rfl, rfl, ?_, ?_, hbehind.symm, ?_⟩
  · exact hts.of_isInfix (List.suffix_append _ _).isInfix
  · exact hus.of_isInfix (List.suffix_append _ _).isInfix
  · simpa using hliterals

/-- The same with the roles of the two texts changed. -/
theorem exists_behind_mark_template {r' : Text} (h : Agree a (Condition.mark ++ r') x) :
    ∃ r, a = Condition.mark ++ r := by
  obtain ⟨ts, us, rfl, hspell, hts, hus, houtline, -⟩ := h
  have hlead : ∀ e body, quoted (.escape e) body ∈ us → isEscapeMark e = true := by
    intro e body hmem
    rw [hus.lead_eq hmem]
    rfl
  obtain ⟨us, rfl, rfl⟩ := exists_codes_append inert_mark hlead hspell
  obtain ⟨ts, rfl, -⟩ := exists_codes_of_outline_eq houtline
  exact ⟨spellAll ts, by simp⟩

theorem marked_eq (h : Agree a b x) : Condition.marked a = Condition.marked b := by
  rw [Bool.eq_iff_iff, Condition.marked, Condition.marked, List.isPrefixOf_iff_prefix,
    List.isPrefixOf_iff_prefix]
  constructor
  · rintro ⟨r, rfl⟩
    obtain ⟨r', rfl, -⟩ := h.exists_behind_mark
    exact List.prefix_append _ _
  · rintro ⟨r', rfl⟩
    obtain ⟨r, rfl⟩ := h.exists_behind_mark_template
    exact List.prefix_append _ _

/-! ### What keeps an agreement -/

theorem trim (h : Agree a b x) : Agree a.trim b.trim x := by
  obtain ⟨ts, us, rfl, rfl, hts, hus, houtline, hliterals⟩ := h
  have hsolid : ∀ vs : List Token, Clear vs → LeadsSolid vs := by
    intro vs hvs mark body hmem
    rw [hvs.lead_eq hmem]
    rfl
  refine ⟨trimTokens ts, trimTokens us, spellAll_trimTokens (hsolid ts hts),
    spellAll_trimTokens (hsolid us hus), hts.of_isInfix (dropEnds_isInfix _ _),
    hus.of_isInfix (dropEnds_isInfix _ _), ?_, ?_⟩
  · rw [outline_trimTokens, outline_trimTokens, houtline]
  · rw [literals_trimTokens, hliterals]

/-- A mark at the front is left out of both texts or of none. -/
theorem withoutMark (h : Agree a b x) :
    Agree ((Condition.mark.isPrefixOf? a).getD a) ((Condition.mark.isPrefixOf? b).getD b) x := by
  cases ha : Condition.mark.isPrefixOf? a with
  | some r =>
    obtain rfl := List.isPrefixOf?_eq_some_iff_append_eq.1 ha
    obtain ⟨r', rfl, hbehind⟩ := h.exists_behind_mark
    have hb : Condition.mark.isPrefixOf? (Condition.mark ++ r') = some r' :=
      List.isPrefixOf?_eq_some_iff_append_eq.2 rfl
    rw [hb]
    exact hbehind
  | none =>
    have hb : Condition.mark.isPrefixOf? b = none := by
      cases hb : Condition.mark.isPrefixOf? b with
      | none => rfl
      | some r' =>
        obtain rfl := List.isPrefixOf?_eq_some_iff_append_eq.1 hb
        obtain ⟨r, rfl⟩ := h.exists_behind_mark_template
        rw [List.isPrefixOf?_eq_some_iff_append_eq.2 rfl] at ha
        exact absurd ha (by simp)
    rw [hb]
    exact h

/-! ### Written forms -/

theorem bracketed (h : Agree a b x) : Agree (Text.bracketed a) (Text.bracketed b) x := by
  have hclosed : Agree (a ++ [')']) (b ++ [')']) (x ++ []) := h.separated rfl .nil
  simpa [Text.bracketed] using Agree.separated (c := '(') rfl .nil hclosed

/-- A word in front of a text. -/
theorem worded (hword : Inert t) (h : Agree a b x) : Agree (t ++ ' ' :: a) (t ++ ' ' :: b) x :=
  Agree.separated rfl (.verbatim hword) h

theorem clause (hword : Inert t) (h : Agree a b x) :
    Agree (Text.clause t a) (Text.clause t b) x := by
  rw [Text.clause, Text.clause, h.isEmpty_eq]
  split
  · rename_i hempty
    obtain rfl := List.isEmpty_iff.1 hempty
    obtain rfl := h.eq_nil_iff.2 rfl
    exact h
  · exact h.worded hword

end Agree

/-! ## Agreement of lists of texts -/

/-- Texts that agree piece by piece. -/
inductive AgreeAll : List Text → List Text → List Text → Prop
  | nil : AgreeAll [] [] []
  | cons {a b : Text} {as bs x y : List Text} (h : Agree a b x) (hs : AgreeAll as bs y) :
      AgreeAll (a :: as) (b :: bs) (x ++ y)

/-- A text that keeps an agreement when it stands between two texts. -/
def Glues (sep : Text) : Prop :=
  ∀ {a a' b b' : Text} {x y : List Text}, Agree a a' x → Agree b b' y →
    Agree (a ++ sep ++ b) (a' ++ sep ++ b') (x ++ y)

/-- A separator, inert text and one more separator. -/
theorem glues_word (word : Text) {c d : Char} (hc : isSeparator c = true)
    (hd : isSeparator d = true) (hword : Inert word) : Glues (c :: word ++ [d]) := by
  intro a a' b b' x y ha hb
  have hbehind : Agree (word ++ d :: b) (word ++ d :: b') ([] ++ y) :=
    Agree.separated hd (.verbatim hword) hb
  simpa using Agree.separated hc ha hbehind

theorem glues_comma : Glues ", " :=
  glues_word [] rfl rfl (by decide)

namespace AgreeAll

variable {as bs as' bs' x y : List Text}

theorem append (h : AgreeAll as bs x) (h' : AgreeAll as' bs' y) :
    AgreeAll (as ++ as') (bs ++ bs') (x ++ y) := by
  induction h with
  | nil => exact h'
  | cons ha _ ih =>
    rw [List.append_assoc]
    exact .cons ha ih

theorem map {α : Type} {f g : α → Text} {k : α → List Text} {xs : List α}
    (h : ∀ x ∈ xs, Agree (f x) (g x) (k x)) :
    AgreeAll (xs.map f) (xs.map g) (xs.flatMap k) := by
  induction xs with
  | nil => exact .nil
  | cons x xs ih => exact .cons (h x (by simp)) (ih fun y hy => h y (by simp [hy]))

theorem singleton {a b : Text} (h : Agree a b x) : AgreeAll [a] [b] x := by
  simpa using AgreeAll.cons h .nil

/-- The same pieces are empty on both sides, and they have no literals. -/
theorem nonempty (h : AgreeAll as bs x) : AgreeAll (Text.nonempty as) (Text.nonempty bs) x := by
  induction h with
  | nil => exact .nil
  | @cons a b as bs x y ha _ ih =>
    rw [Text.nonempty, Text.nonempty, List.filter_cons, List.filter_cons, ha.isEmpty_eq]
    split
    · exact .cons ha ih
    · rename_i hempty
      have hb : b = [] := by simpa using hempty
      obtain rfl := ha.eq_nil_iff.2 hb
      rw [ha.contents_eq_nil]
      exact ih

theorem joinWith {sep : Text} (hsep : Glues sep) (h : AgreeAll as bs x) :
    Agree (Text.joinWith sep as) (Text.joinWith sep bs) x := by
  induction h with
  | nil => exact .nil
  | cons ha hs ih =>
    cases hs with
    | nil => simpa using ha
    | cons hb hs =>
      rw [Text.joinWith, Text.joinWith, List.intercalate_cons_cons, List.intercalate_cons_cons]
      exact hsep ha ih

theorem joinNonempty {sep : Text} (hsep : Glues sep) (h : AgreeAll as bs x) :
    Agree (Text.joinNonempty sep as) (Text.joinNonempty sep bs) x :=
  h.nonempty.joinWith hsep

theorem spaced (h : AgreeAll as bs x) : Agree (Text.spaced as) (Text.spaced bs) x := by
  refine h.joinNonempty ?_
  intro a a' b b' x y ha hb
  simpa [lit] using Agree.separated (c := ' ') rfl ha hb

/-- Elements behind others; the two texts have the same of them marked. -/
theorem chain {unmarked first first' : Text} (hunmarked : Glues unmarked)
    (hfirst : Agree first first' x) (h : AgreeAll as bs y) :
    Agree (first ++ Condition.chain unmarked as) (first' ++ Condition.chain unmarked bs)
      (x ++ y) := by
  induction h generalizing first first' x with
  | nil => simpa [Condition.chain] using hfirst
  | @cons a b as bs y z ha _ ih =>
    have hjoined : Agree (first ++ Condition.joiner a unmarked ++ a)
        (first' ++ Condition.joiner b unmarked ++ b) (x ++ y) := by
      rw [Condition.joiner, Condition.joiner, ha.marked_eq]
      split
      · simpa using Agree.separated (c := ' ') rfl hfirst ha
      · exact hunmarked hfirst ha
    simpa [Condition.chain] using ih hjoined

theorem conjunction (h : AgreeAll as bs x) :
    Agree (Condition.conjunction as) (Condition.conjunction bs) x := by
  cases h with
  | nil => exact .nil
  | cons ha hs => exact (chain (glues_word "AND" rfl rfl (by decide)) ha hs).withoutMark

theorem disjunction (h : AgreeAll as bs x) :
    Agree (Condition.disjunction as) (Condition.disjunction bs) x := by
  cases h with
  | nil => exact .nil
  | cons ha hs =>
    cases hs with
    | nil =>
      have hword : Inert "OR" := by decide
      simpa [Condition.disjunction, Condition.mark, lit] using ha.worded hword
    | cons hb hs =>
      exact (chain (glues_word "OR" rfl rfl (by decide)) ha (.cons hb hs)).bracketed

end AgreeAll

end SqlCompose
