import SqlCompose.Proofs.Reading.Token
import SqlCompose.Text.Blank

/-!
# The edges of written text

Two things that are done to text seen from its tokens: taking away the outer
blanks (`spellAll_trimTokens`), and looking for a mark at the front
(`exists_codes_append`).  A quoted part neither begins nor ends with a blank,
and begins with no letter of a mark, so both are done to the characters that
are code.
-/

namespace SqlCompose

/-- A list without the elements at both ends that have a property. -/
def dropEnds {α : Type} (p : α → Bool) (xs : List α) : List α :=
  ((xs.dropWhile p).reverse.dropWhile p).reverse

theorem dropEnds_isInfix {α : Type} (p : α → Bool) (xs : List α) : dropEnds p xs <:+: xs := by
  have hstart : xs.dropWhile p <:+: xs := (List.dropWhile_suffix _).isInfix
  refine List.IsInfix.trans ?_ hstart
  rw [dropEnds, ← List.reverse_infix, List.reverse_reverse]
  exact (List.dropWhile_suffix _).isInfix

theorem dropEnds_cons {α : Type} {p : α → Bool} {x : α} (h : p x = true) (xs : List α) :
    dropEnds p (x :: xs) = dropEnds p xs := by
  rw [dropEnds, List.dropWhile_cons_of_pos h, dropEnds]

/-- Nothing is dropped in front of an element that stays. -/
theorem dropWhile_eq_self {α : Type} {p : α → Bool} {xs : List α}
    (h : ∀ x ∈ xs.head?, p x = false) : xs.dropWhile p = xs := by
  cases xs with
  | nil => rfl
  | cons x xs => rw [List.dropWhile_cons, h x (by simp), if_neg (by simp)]

theorem dropEnds_eq_self {α : Type} {p : α → Bool} {xs : List α}
    (hhead : ∀ x ∈ xs.head?, p x = false) (hlast : ∀ x ∈ xs.getLast?, p x = false) :
    dropEnds p xs = xs := by
  rw [← List.head?_reverse] at hlast
  rw [dropEnds, dropWhile_eq_self hhead, dropWhile_eq_self hlast, List.reverse_reverse]

/-- Nothing is dropped behind an element that stays. -/
theorem dropWhile_append_cons {α : Type} {p : α → Bool} {x : α} (h : p x = false)
    (xs ys : List α) : (xs ++ x :: ys).dropWhile p = xs.dropWhile p ++ x :: ys := by
  induction xs with
  | nil => simp [h]
  | cons y xs ih => by_cases hy : p y = true <;> simp [hy, ih]

/-- What stands on the two sides of an element that stays is dropped on its own. -/
theorem dropEnds_append_cons {α : Type} {p : α → Bool} {x : α} (h : p x = false)
    (xs ys : List α) :
    dropEnds p (xs ++ x :: ys) = xs.dropWhile p ++ x :: (ys.reverse.dropWhile p).reverse := by
  have hreverse : (xs.dropWhile p ++ x :: ys).reverse =
      ys.reverse ++ x :: (xs.dropWhile p).reverse := by simp
  rw [dropEnds, dropWhile_append_cons h, hreverse, dropWhile_append_cons h]
  simp

/-- What is left begins with an element that stays. -/
theorem head?_dropEnds {α : Type} {p : α → Bool} {xs : List α} :
    ∀ x ∈ (dropEnds p xs).head?, p x = false := by
  intro x hx
  have hstart : dropEnds p xs <+: xs.dropWhile p := by
    rw [dropEnds, ← List.reverse_suffix, List.reverse_reverse]
    exact List.dropWhile_suffix _
  obtain ⟨rest, hrest⟩ := hstart
  have hnot := List.head?_dropWhile_not p xs
  rw [← hrest, List.head?_append, Option.mem_def.1 hx] at hnot
  simpa using hnot

/-- What is left ends with an element that stays. -/
theorem getLast?_dropEnds {α : Type} {p : α → Bool} {xs : List α} :
    ∀ x ∈ (dropEnds p xs).getLast?, p x = false := by
  intro x hx
  rw [dropEnds, List.getLast?_reverse] at hx
  have hnot := List.head?_dropWhile_not p (xs.dropWhile p).reverse
  rw [Option.mem_def.1 hx] at hnot
  simpa using hnot

/-- What is left begins and ends with an element that stays, so nothing more is dropped. -/
theorem dropEnds_dropEnds {α : Type} (p : α → Bool) (xs : List α) :
    dropEnds p (dropEnds p xs) = dropEnds p xs :=
  dropEnds_eq_self head?_dropEnds getLast?_dropEnds

theorem isInfix_dropWhile {α : Type} {p : α → Bool} {xs ys : List α} (h : xs <:+: ys)
    (hhead : ∀ x ∈ xs.head?, p x = false) : xs <:+: ys.dropWhile p := by
  cases xs with
  | nil => exact List.nil_infix
  | cons x xs =>
    obtain ⟨front, back, rfl⟩ := h
    have hcut : front ++ x :: xs ++ back = front ++ x :: (xs ++ back) := by simp
    rw [hcut, dropWhile_append_cons (hhead x (by simp))]
    exact ⟨front.dropWhile p, back, by simp⟩

theorem isInfix_dropWhile_reverse {α : Type} {p : α → Bool} {xs ys : List α} (h : xs <:+: ys)
    (hlast : ∀ x ∈ xs.getLast?, p x = false) : xs <:+: (ys.reverse.dropWhile p).reverse := by
  rw [← List.head?_reverse] at hlast
  rw [← List.reverse_infix] at h
  have hback := isInfix_dropWhile h hlast
  rw [← List.reverse_infix, List.reverse_reverse] at hback
  exact hback

/-- What begins and ends with elements that stay is not dropped from anything that it is a
part of. -/
theorem isInfix_dropEnds {α : Type} {p : α → Bool} {xs ys : List α} (h : xs <:+: ys)
    (hhead : ∀ x ∈ xs.head?, p x = false) (hlast : ∀ x ∈ xs.getLast?, p x = false) :
    xs <:+: dropEnds p ys :=
  isInfix_dropWhile_reverse (isInfix_dropWhile h hhead) hlast

namespace Token

/-- Whether a token is a blank. -/
def isBlankCode : Token → Bool
  | code c => isBlank c
  | quoted _ _ => false

/-- Tokens without their outer blanks. -/
def trimTokens (ts : List Token) : List Token := dropEnds isBlankCode ts

/-- Pieces can be dropped as long as their elements are dropped one by one. -/
theorem dropWhile_flatMap {α β : Type} {f : α → List β} {p : β → Bool} {q : α → Bool}
    {xs : List α}
    (h : ∀ x ∈ xs, ∃ b r, f x = b :: r ∧ p b = q x ∧ (q x = true → r = [])) :
    (xs.flatMap f).dropWhile p = (xs.dropWhile q).flatMap f := by
  induction xs with
  | nil => rfl
  | cons x xs ih =>
    obtain ⟨b, r, hx, hp, hr⟩ := h x (by simp)
    have ih := ih fun y hy => h y (by simp [hy])
    rw [List.flatMap_cons, hx, List.cons_append, List.dropWhile_cons, List.dropWhile_cons, hp]
    split
    · rename_i hq
      rw [hr hq, List.nil_append, ih]
    · rw [List.flatMap_cons, hx, List.cons_append]

/-- The letters before escape literals are no blanks. -/
def LeadsSolid (ts : List Token) : Prop :=
  ∀ mark body, quoted (.escape mark) body ∈ ts → isBlank mark = false

theorem spell_begins {ts : List Token} (h : LeadsSolid ts) :
    ∀ t ∈ ts, ∃ c r, t.spell = c :: r ∧ isBlank c = t.isBlankCode ∧
      (t.isBlankCode = true → r = []) := by
  intro t ht
  cases t with
  | code c => exact ⟨c, [], rfl, rfl, fun _ => rfl⟩
  | quoted form body =>
    cases form with
    | plain => exact ⟨'\'', _, rfl, rfl, fun hb => by simp [isBlankCode] at hb⟩
    | name => exact ⟨'"', _, rfl, rfl, fun hb => by simp [isBlankCode] at hb⟩
    | escape mark => exact ⟨mark, _, rfl, h mark body ht, fun hb => by simp [isBlankCode] at hb⟩

theorem spell_ends (t : Token) :
    ∃ c r, t.spell.reverse = c :: r ∧ isBlank c = t.isBlankCode ∧
      (t.isBlankCode = true → r = []) := by
  cases t with
  | code c => exact ⟨c, [], rfl, rfl, fun _ => rfl⟩
  | quoted form body =>
    have hblank : isBlank form.delimiter = false := by cases form <;> rfl
    refine ⟨form.delimiter, (form.lead ++ form.delimiter :: body).reverse, ?_, hblank,
      fun hb => by simp [isBlankCode] at hb⟩
    simp [spell]

theorem spellAll_reverse (ts : List Token) :
    (spellAll ts).reverse = ts.reverse.flatMap fun t => t.spell.reverse := by
  rw [spellAll, List.reverse_flatMap]
  rfl

/-- Text is trimmed token by token. -/
theorem spellAll_trimTokens {ts : List Token} (h : LeadsSolid ts) :
    spellAll (trimTokens ts) = (spellAll ts).trim := by
  have hstart : (spellAll ts).trimStart = spellAll (ts.dropWhile isBlankCode) :=
    dropWhile_flatMap (spell_begins h)
  rw [Text.trim, hstart, Text.trimEnd, spellAll_reverse,
    dropWhile_flatMap fun t _ => spell_ends t, trimTokens, dropEnds, ← List.reverse_inj,
    spellAll_reverse, List.reverse_reverse, List.reverse_reverse]

/-- A mark at the front of a text is made of its first tokens. -/
theorem exists_codes_append {mark r : Text} {ts : List Token}
    (hmark : ∀ c ∈ mark, c ≠ '\'' ∧ c ≠ '"' ∧ isEscapeMark c = false)
    (hlead : ∀ e body, quoted (.escape e) body ∈ ts → isEscapeMark e = true)
    (h : spellAll ts = mark ++ r) : ∃ us, ts = codes mark ++ us ∧ spellAll us = r := by
  induction mark generalizing ts with
  | nil => exact ⟨ts, rfl, h⟩
  | cons c mark ih =>
    obtain ⟨hquote, hname, hescape⟩ := hmark c (by simp)
    cases ts with
    | nil => simp at h
    | cons t ts =>
      cases t with
      | code d =>
        obtain ⟨rfl, hrest⟩ : d = c ∧ spellAll ts = mark ++ r := by simpa [spell] using h
        obtain ⟨us, rfl, hus⟩ := ih (fun e he => hmark e (by simp [he]))
          (fun e body he => hlead e body (List.mem_cons_of_mem _ he)) hrest
        exact ⟨us, rfl, hus⟩
      | quoted form body =>
        cases form with
        | plain => exact absurd (List.cons.inj h).1.symm hquote
        | name => exact absurd (List.cons.inj h).1.symm hname
        | escape e =>
          obtain rfl : e = c := (List.cons.inj h).1
          have := hlead e body (by simp)
          simp [hescape] at this

end Token

end SqlCompose
