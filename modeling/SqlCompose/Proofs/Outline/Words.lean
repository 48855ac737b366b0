import SqlCompose.Proofs.Writing

/-!
# Words outside of literals

How a statement looks to someone who knows blanks and string literals and
nothing else.  `words` cuts a text at the blanks that stand outside of its
literals and keeps each of them with the word behind it, so nothing is lost
(`spell_words`).

* `wordsFrom_blank`: a blank between two texts is a border between their words.
* `wordsFrom_seam`: a comma, a dot or a bracket between two texts glues two words
  together and leaves the others as they are.
* `wordsFrom_inside`: a literal is part of one word, whatever it holds.
* `wordsFrom_solid`: text without blanks and quotes is part of one word.
-/

namespace SqlCompose

namespace Outline

/-! ## Places -/

/-- Where a reader stands. -/
inductive Place where
  /-- Outside of literals.  The character before may belong to a word, and a quote may open
  or go on with an escape literal. -/
  | outside (inWord escapes : Bool)
  | inside (escapes : Bool)
  /-- Inside of an escape literal, behind a backslash. -/
  | taking
  deriving DecidableEq

namespace Place

def isOutside : Place → Bool
  | outside _ _ => true
  | inside _ | taking => false

/-- The place behind one more character.  A quote directly behind an escape literal was
written twice, and the literal goes on. -/
def next : Place → Char → Place
  | outside inWord escapes, c =>
    if c = '\'' then inside escapes
    else outside (isWordChar c && !isBlank c) (isEscapeMark c && !inWord)
  | inside escapes, c =>
    if c = '\'' then outside false escapes
    else if escapes && c == '\\' then taking
    else inside escapes
  | taking, _ => inside true

/-- Where a text begins. -/
def start : Place := outside false false

/-- The place behind a text. -/
def behind (p : Place) (t : Text) : Place := t.foldl next p

variable {p : Place} {c : Char} {t u : Text}

theorem behind_append (p : Place) (t u : Text) : p.behind (t ++ u) = (p.behind t).behind u :=
  List.foldl_append

/-- Behind a character that neither quotes nor belongs to a word all is as at the start. -/
theorem next_eq_start (hp : p.isOutside = true) (hquote : c ≠ '\'')
    (hword : (isWordChar c && !isBlank c) = false) (hmark : isEscapeMark c = false) :
    p.next c = start := by
  cases p with
  | outside inWord escapes => rw [next, if_neg hquote, hword, hmark, Bool.false_and, start]
  | inside escapes => cases hp
  | taking => cases hp

theorem next_blank (hp : p.isOutside = true) (hc : isBlank c = true) : p.next c = start := by
  refine next_eq_start hp ?_ (by rw [hc]; simp) ?_
  · rintro rfl
    exact absurd hc (by decide)
  · rw [Bool.eq_false_iff]
    intro hmark
    simp only [isEscapeMark, Bool.or_eq_true, beq_iff_eq] at hmark
    rcases hmark with rfl | rfl <;> exact absurd hc (by decide)

/-- Outside of literals, one begins with a quote. -/
theorem isOutside_next (hp : p.isOutside = true) (hquote : c ≠ '\'') :
    (p.next c).isOutside = true := by
  cases p with
  | outside inWord escapes =>
    rw [next, if_neg hquote]
    rfl
  | inside escapes => cases hp
  | taking => cases hp

/-- Only a quote ends a literal. -/
theorem isOutside_of_next (hquote : c ≠ '\'') (h : (p.next c).isOutside = true) :
    p.isOutside = true := by
  cases p with
  | outside inWord escapes => rfl
  | inside escapes =>
    rw [next, if_neg hquote] at h
    split at h <;> cases h
  | taking => cases h

end Place

/-! ## Words -/

/-- A word with the blank in front of it. -/
structure Word where
  blank : Char
  text : Text
  deriving DecidableEq

/-- What is left of the word at a place, and the words behind it. -/
def wordsFrom : Place → Text → Text × List Word
  | _, [] => ([], [])
  | p, c :: rest =>
    let (word, later) := wordsFrom (p.next c) rest
    if p.isOutside && isBlank c then ([], ⟨c, word⟩ :: later) else (c :: word, later)

/-- The words of a text behind a blank. -/
def words (blank : Char) (t : Text) : List Word :=
  ⟨blank, (wordsFrom .start t).1⟩ :: (wordsFrom .start t).2

/-- Words as they are written, one behind the other. -/
def spell (ws : List Word) : Text := ws.flatMap fun w => w.blank :: w.text

example : words ' ' "a = E'\\' OR '  ORDER".toList =
    [⟨' ', "a".toList⟩, ⟨' ', "=".toList⟩, ⟨' ', "E'\\' OR '".toList⟩, ⟨' ', []⟩,
      ⟨' ', "ORDER".toList⟩] := by decide

variable {p : Place} {c : Char} {t u : Text}

theorem wordsFrom_blank_cons (hp : p.isOutside = true) (hc : isBlank c = true) (t : Text) :
    wordsFrom p (c :: t) = ([], words c t) := by
  rw [wordsFrom, hp, hc, Place.next_blank hp hc]
  rfl

theorem wordsFrom_cons (h : (p.isOutside && isBlank c) = false) (t : Text) :
    wordsFrom p (c :: t) = (c :: (wordsFrom (p.next c) t).1, (wordsFrom (p.next c) t).2) := by
  rw [wordsFrom, h]
  rfl

@[simp] theorem spell_nil : spell [] = [] := rfl

@[simp] theorem spell_cons (w : Word) (ws : List Word) :
    spell (w :: ws) = w.blank :: w.text ++ spell ws := rfl

theorem spell_wordsFrom (p : Place) (t : Text) :
    (wordsFrom p t).1 ++ spell (wordsFrom p t).2 = t := by
  induction t generalizing p with
  | nil => rfl
  | cons c t ih =>
    rw [wordsFrom]
    dsimp only
    split
    · exact congrArg (c :: ·) (ih _)
    · exact congrArg (c :: ·) (ih _)

/-- Nothing is lost. -/
theorem spell_words (blank : Char) (t : Text) : spell (words blank t) = blank :: t :=
  congrArg (blank :: ·) (spell_wordsFrom .start t)

/-! ## Texts put together -/

/-- A blank is a border between words. -/
theorem wordsFrom_blank (hp : (p.behind t).isOutside = true) (hc : isBlank c = true) (u : Text) :
    wordsFrom p (t ++ c :: u) = ((wordsFrom p t).1, (wordsFrom p t).2 ++ words c u) := by
  induction t generalizing p with
  | nil => exact wordsFrom_blank_cons hp hc u
  | cons d t ih =>
    rw [List.cons_append, wordsFrom, wordsFrom, ih hp]
    dsimp only
    split <;> rfl

theorem words_blank (blank : Char) (ht : (Place.start.behind t).isOutside = true)
    (hc : isBlank c = true) (u : Text) :
    words blank (t ++ c :: u) = words blank t ++ words c u := by
  rw [words, wordsFrom_blank ht hc]
  rfl

/-- Behind a seam all is as at the start, and it belongs to the words around it. -/
theorem wordsFrom_seam (hp : (p.behind t).isOutside = true) (hc : isBlank c = false)
    (hnext : (p.behind t).next c = .start) (u : Text) :
    ((wordsFrom p (t ++ c :: u)).1 = (wordsFrom p t).1 ∨ c ∈ (wordsFrom p (t ++ c :: u)).1) ∧
      ∀ w ∈ (wordsFrom p (t ++ c :: u)).2,
        (∃ v ∈ (wordsFrom p t).2, v.text = w.text) ∨ w ∈ (wordsFrom .start u).2 ∨
          c ∈ w.text := by
  induction t generalizing p with
  | nil =>
    have hnext : p.next c = .start := hnext
    rw [List.nil_append, wordsFrom_cons (by rw [hc, Bool.and_false]), hnext]
    exact ⟨.inr List.mem_cons_self, fun w hw => .inr (.inl hw)⟩
  | cons d t ih =>
    obtain ⟨hfirst, hlater⟩ := ih hp hnext
    rw [List.cons_append, wordsFrom, wordsFrom]
    dsimp only
    split
    · refine ⟨.inl rfl, ?_⟩
      intro w hw
      rcases List.mem_cons.1 hw with rfl | hw
      · rcases hfirst with hsame | hmem
        · exact .inl ⟨_, List.mem_cons_self, hsame.symm⟩
        · exact .inr (.inr hmem)
      · rcases hlater w hw with ⟨v, hv, hsame⟩ | hw
        · exact .inl ⟨v, List.mem_cons_of_mem _ hv, hsame⟩
        · exact .inr hw
    · refine ⟨?_, hlater⟩
      rcases hfirst with hsame | hmem
      · exact .inl (congrArg (d :: ·) hsame)
      · exact .inr (List.mem_cons_of_mem _ hmem)

/-! ## Single words -/

/-- A text that stands outside of literals and holds no blank is part of one word. -/
theorem wordsFrom_solid (hp : p.isOutside = true)
    (ht : ∀ c ∈ t, c ≠ '\'' ∧ isBlank c = false) :
    wordsFrom p t = (t, []) ∧ (p.behind t).isOutside = true := by
  induction t generalizing p with
  | nil => exact ⟨rfl, hp⟩
  | cons c t ih =>
    obtain ⟨⟨hquote, hblank⟩, hrest⟩ := List.forall_mem_cons.1 ht
    obtain ⟨hwords, hout⟩ := ih (Place.isOutside_next hp hquote) hrest
    rw [wordsFrom_cons (by rw [hblank, Bool.and_false]), hwords]
    exact ⟨rfl, hout⟩

/-- The body of a literal is part of one word, and its quotes are written twice. -/
theorem wordsFrom_inside {form : Quoting} {body : Text} (h : Token.Enclosed form body)
    (hform : form.delimiter = '\'') (u : Text) :
    wordsFrom (.inside form.escapes) (body ++ u) =
        (body ++ (wordsFrom (.inside form.escapes) u).1,
          (wordsFrom (.inside form.escapes) u).2) ∧
      (Place.inside form.escapes).behind body = .inside form.escapes := by
  have hnext : ∀ {escapes : Bool} {c : Char}, c ≠ '\'' → (escapes && c == '\\') = false →
      (Place.inside escapes).next c = .inside escapes := by
    intro escapes c hquote hescape
    rw [Place.next, if_neg hquote, hescape, if_neg (by simp)]
  induction h with
  | nil => exact ⟨rfl, rfl⟩
  | @char c r hd hb _ ih =>
    have hescape : (form.escapes && c == '\\') = false := by
      cases he : form.escapes with
      | false => rfl
      | true => simpa using hb he
    have hsame := hnext (hform ▸ hd) hescape
    obtain ⟨hwords, hbehind⟩ := ih
    rw [List.cons_append, wordsFrom_cons rfl, hsame, hwords]
    exact ⟨rfl, (congrArg (Place.behind · r) hsame).trans hbehind⟩
  | @doubled r _ ih =>
    obtain ⟨hwords, hbehind⟩ := ih
    rw [hform, List.cons_append, List.cons_append, wordsFrom_cons rfl, wordsFrom_cons rfl]
    have hclose : (Place.inside form.escapes).next '\'' = .outside false form.escapes := rfl
    have hopen : (Place.outside false form.escapes).next '\'' = .inside form.escapes := rfl
    rw [hclose, hopen, hwords]
    exact ⟨rfl, hbehind⟩
  | @escaped c r he _ ih =>
    obtain ⟨hwords, hbehind⟩ := ih
    rw [he] at hwords hbehind ⊢
    rw [List.cons_append, List.cons_append, wordsFrom_cons rfl, wordsFrom_cons rfl]
    have htake : (Place.inside true).next '\\' = .taking := rfl
    have htaken : Place.taking.next c = .inside true := rfl
    rw [htake, htaken, hwords]
    exact ⟨rfl, hbehind⟩

end Outline

end SqlCompose
