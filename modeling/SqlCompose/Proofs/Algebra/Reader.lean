import SqlCompose.Proofs.Reading.Edge
import SqlCompose.Proofs.Reading.Phrase

/-!
# Reading connectives

A reader of the text behind `WHERE`.  It cuts the text at its words `OR` into
blocks and each block at its words `AND` into predicates, so `AND` binds
tighter than `OR`.  Words count in either case, but neither inside of
literals nor between brackets, and the `AND` that a `BETWEEN` waits for
belongs to the `BETWEEN`.

There are three groups of lemmas.

* Words.  `chunks_append_other` keeps the words on the two sides of a
  phrase apart that belongs to no word.
* Roles.  `roles_append` reads a text on from the state that the text before
  it leaves behind.
* Blocks.  `blocksOf_or` puts the blocks of two texts one behind the other,
  `blocksOf_and` makes the last and the first of them one block, and
  `blocksOf_concat` and `blocksOf_cons` leave out blanks.
-/

namespace SqlCompose

open Token Phrase

/-! ## Words -/

/-- The character of a word that a phrase is, if it is one. -/
def Phrase.wordChar? : Phrase → Option Char
  | leaf (code c) => if isWordChar c && !isBlank c then some c else none
  | leaf (quoted _ _) | group _ => none

/-- A part of a text: a word, or a phrase that belongs to no word. -/
inductive Chunk where
  | word (w : Text)
  | other (p : Phrase)

namespace Chunk

/-- The phrases of a chunk. -/
def phrases : Chunk → List Phrase
  | word w => leaves (codes w)
  | other p => [p]

/-- A chunk as it is written. -/
def spell (ch : Chunk) : Text := spellAll (tokensOfAll ch.phrases)

/-- Whether a chunk is a word, in either case. -/
def isWord (keyword : Text) : Chunk → Bool
  | word w => w.upper == keyword
  | other _ => false

/-- Whether a chunk is a word that decides how an expression is read. -/
def isKeyword (ch : Chunk) : Bool := ch.isWord "AND" || ch.isWord "OR" || ch.isWord "BETWEEN"

end Chunk

/-- Puts a character in front of the word that comes next. -/
def addChar (c : Char) : List Chunk → List Chunk
  | .word w :: rest => .word (c :: w) :: rest
  | rest => .word [c] :: rest

/-- The chunks of phrases; neighbouring characters of words form one word. -/
def chunks : List Phrase → List Chunk
  | [] => []
  | p :: rest =>
    match p.wordChar? with
    | some c => addChar c (chunks rest)
    | none => .other p :: chunks rest

/-! ## Roles -/

/-- What a chunk does in an expression. -/
inductive Role where
  /-- It belongs to a predicate. -/
  | part
  | and
  | or
  deriving DecidableEq

/-- The role of a chunk, where a `BETWEEN` may wait for its `AND`. -/
def role (waiting : Bool) (ch : Chunk) : Role :=
  if ch.isWord "AND" then if waiting then .part else .and
  else if ch.isWord "OR" then .or
  else .part

/-- Whether a `BETWEEN` waits for its `AND` behind a chunk. -/
def awaits (waiting : Bool) (ch : Chunk) : Bool :=
  if ch.isWord "BETWEEN" then true
  else if ch.isWord "AND" || ch.isWord "OR" then false
  else waiting

/-- Chunks with their roles. -/
def roles : Bool → List Chunk → List (Role × Chunk)
  | _, [] => []
  | waiting, ch :: rest => (role waiting ch, ch) :: roles (awaits waiting ch) rest

/-! ## Blocks -/

/-- A predicate as it is written, without its outer blanks. -/
def predicateText (pieces : List (Role × Chunk)) : Text :=
  Text.trim (pieces.flatMap fun piece => piece.2.spell)

/-- The predicates of a block. -/
def predicatesOf (block : List (Role × Chunk)) : List Text :=
  (block.splitOnP fun piece => piece.1 == .and).map predicateText

/-- The blocks of an expression, each as its predicates. -/
def blocksOf (pieces : List (Role × Chunk)) : List (List Text) :=
  (pieces.splitOnP fun piece => piece.1 == .or).map predicatesOf

/-- The phrases of a text. -/
def readPhrases (t : Text) : Option (List Phrase) := (scan t).bind nest

/-- An expression as a disjunction of conjunctions of predicates; a blank text says
nothing. -/
def readExpression (t : Text) : Option (List (List Text)) :=
  if t.blank then some []
  else (readPhrases t).map fun phrases => blocksOf (roles false (chunks phrases))

example : readExpression (lit "a = 'x AND y' and b BETWEEN 1 AND 2 or (c OR d)") =
    some [[lit "a = 'x AND y'", lit "b BETWEEN 1 AND 2"], [lit "(c OR d)"]] := by
  decide +kernel

/-! ## Words are kept apart -/

theorem chunks_cons_other {p : Phrase} (hp : p.wordChar? = none) (ps : List Phrase) :
    chunks (p :: ps) = .other p :: chunks ps := by
  rw [chunks, hp]

theorem eq_of_wordChar?_eq_some {p : Phrase} {c : Char} (h : p.wordChar? = some c) :
    p = leaf (code c) := by
  cases p with
  | group inside => simp [wordChar?] at h
  | leaf t =>
    cases t with
    | quoted form body => simp [wordChar?] at h
    | code d =>
      rw [wordChar?] at h
      split at h
      · rw [Option.some.inj h]
      · simp at h

theorem addChar_append_other (c : Char) (xs ys : List Chunk) (p : Phrase) :
    addChar c (xs ++ .other p :: ys) = addChar c xs ++ .other p :: ys := by
  cases xs with
  | nil => rfl
  | cons x xs => cases x <;> rfl

/-- A phrase that belongs to no word keeps apart what stands on its two sides. -/
theorem chunks_append_other {p : Phrase} (hp : p.wordChar? = none) (ps qs : List Phrase) :
    chunks (ps ++ p :: qs) = chunks ps ++ .other p :: chunks qs := by
  induction ps with
  | nil => exact chunks_cons_other hp qs
  | cons q ps ih =>
    rw [List.cons_append, chunks, chunks, ih]
    cases q.wordChar? with
    | none => rfl
    | some c => exact addChar_append_other c _ _ p

/-- Chunks are written as their phrases are. -/
theorem flatMap_spell_chunks (ps : List Phrase) :
    (chunks ps).flatMap Chunk.spell = spellAll (tokensOfAll ps) := by
  have hadd : ∀ c xs, (addChar c xs).flatMap Chunk.spell = c :: xs.flatMap Chunk.spell := by
    intro c xs
    cases xs with
    | nil => simp [addChar, Chunk.spell, Chunk.phrases]
    | cons x xs => cases x <;> simp [addChar, Chunk.spell, Chunk.phrases]
  induction ps with
  | nil => rfl
  | cons p ps ih =>
    rw [chunks]
    split
    · rename_i c hc
      rw [hadd, ih, eq_of_wordChar?_eq_some hc]
      simp [tokensOfAll, tokens, Token.spell]
    · rw [List.flatMap_cons, ih]
      simp [Chunk.spell, Chunk.phrases, tokensOfAll]

/-! ## Reading on -/

theorem roles_append (waiting : Bool) (xs ys : List Chunk) :
    roles waiting (xs ++ ys) = roles waiting xs ++ roles (xs.foldl awaits waiting) ys := by
  induction xs generalizing waiting with
  | nil => rfl
  | cons x xs ih => rw [List.cons_append, roles, roles, ih, List.cons_append, List.foldl_cons]

theorem map_snd_roles (waiting : Bool) (xs : List Chunk) :
    (roles waiting xs).map Prod.snd = xs := by
  induction xs generalizing waiting with
  | nil => rfl
  | cons x xs ih => rw [roles, List.map_cons, ih]

/-! ## Blocks of joined texts -/

/-- Two lists one behind the other, the last element of the first and the first element of
the second being made one. -/
def mergeWith {α : Type} (f : α → α → α) : List α → List α → List α
  | [], ys => ys
  | [x], [] => [x]
  | [x], y :: ys => f x y :: ys
  | x :: x' :: xs, ys => x :: mergeWith f (x' :: xs) ys

theorem mergeWith_cons {α : Type} (f : α → α → α) (x : α) {xs : List α} (h : xs ≠ [])
    (ys : List α) :
    mergeWith f (x :: xs) ys = x :: mergeWith f xs ys := by
  cases xs with
  | nil => exact absurd rfl h
  | cons x' xs => rw [mergeWith]

theorem map_mergeWith {α β : Type} {f : α → α → α} {g : β → β → β} {k : α → β}
    (h : ∀ a b, k (f a b) = g (k a) (k b)) (xs ys : List α) :
    (mergeWith f xs ys).map k = mergeWith g (xs.map k) (ys.map k) := by
  induction xs with
  | nil => simp [mergeWith]
  | cons x xs ih =>
    cases xs with
    | nil => cases ys <;> simp [mergeWith, h]
    | cons x' xs =>
      have hmap : (x :: x' :: xs).map k = k x :: (x' :: xs).map k := rfl
      rw [mergeWith_cons f x (List.cons_ne_nil x' xs), List.map_cons, ih, hmap,
        mergeWith_cons g (k x) (by simp)]

theorem mergeWith_cons_map {α : Type} (f : α → α → α) (h : α → α) {xs : List α} (hxs : xs ≠ [])
    (y : α) (ys : List α) :
    mergeWith f xs (h y :: ys) = mergeWith (fun a b => f a (h b)) xs (y :: ys) := by
  induction xs with
  | nil => exact absurd rfl hxs
  | cons x xs ih =>
    cases xs with
    | nil => rfl
    | cons x' xs =>
      rw [mergeWith_cons _ x (List.cons_ne_nil x' xs), mergeWith_cons _ x (List.cons_ne_nil x' xs),
        ih (by simp)]

/-- Two lists are split on their own, and what stands at their border is one piece. -/
theorem splitOnP_append {α : Type} (p : α → Bool) (xs ys : List α) :
    (xs ++ ys).splitOnP p = mergeWith (· ++ ·) (xs.splitOnP p) (ys.splitOnP p) := by
  induction xs with
  | nil =>
    obtain ⟨y, rest, hy⟩ := List.exists_cons_of_ne_nil (List.splitOnP_ne_nil p ys)
    rw [List.nil_append, hy]
    simp [mergeWith]
  | cons x xs ih =>
    obtain ⟨z, rest, hz⟩ := List.exists_cons_of_ne_nil (List.splitOnP_ne_nil p xs)
    rw [List.cons_append, List.splitOnP_cons_eq_if_modifyHead, List.splitOnP_cons_eq_if_modifyHead,
      ih, hz]
    split
    · rw [mergeWith_cons _ [] (List.cons_ne_nil z rest)]
    · cases rest with
      | nil => cases ys.splitOnP p <;> simp [mergeWith]
      | cons z' rest => simp [mergeWith]

theorem splitOnP_singleton {α : Type} {p : α → Bool} {x : α} (h : p x = false) :
    [x].splitOnP p = [[x]] :=
  List.splitOnP_eq_singleton (by simpa using h)

/-- One more element at the end that makes no difference. -/
theorem map_splitOnP_concat {α β : Type} {p : α → Bool} {k : List α → β} {x : α} (hx : p x = false)
    (h : ∀ piece, k (piece ++ [x]) = k piece) (xs : List α) :
    ((xs ++ [x]).splitOnP p).map k = (xs.splitOnP p).map k := by
  rw [splitOnP_append, splitOnP_singleton hx]
  obtain ⟨z, rest, hz⟩ := List.exists_cons_of_ne_nil (List.splitOnP_ne_nil p xs)
  rw [hz]
  clear hz
  induction rest generalizing z with
  | nil => simp [mergeWith, h]
  | cons z' rest ih =>
    have hmap : (z :: z' :: rest).map k = k z :: (z' :: rest).map k := rfl
    rw [mergeWith_cons _ z (List.cons_ne_nil z' rest), List.map_cons, ih, hmap]

/-- One more element at the front that makes no difference. -/
theorem map_splitOnP_cons {α β : Type} {p : α → Bool} {k : List α → β} {x : α} (hx : p x = false)
    (h : ∀ piece, k (x :: piece) = k piece) (xs : List α) :
    ((x :: xs).splitOnP p).map k = (xs.splitOnP p).map k := by
  obtain ⟨z, rest, hz⟩ := List.exists_cons_of_ne_nil (List.splitOnP_ne_nil p xs)
  rw [List.splitOnP_cons_eq_if_modifyHead, hx, hz]
  simp [h]

/-- Whether a chunk is a blank. -/
def Chunk.isGap : Chunk → Bool
  | .other (leaf t) => t.isBlankCode
  | .other (group _) | .word _ => false

variable {blank : Role × Chunk} {xs ys : List (Role × Chunk)}

theorem trim_concat {c : Char} (hc : isBlank c = true) (t : Text) :
    Text.trim (t ++ [c]) = t.trim := by
  have hend : ∀ u : Text, Text.trimEnd (u ++ [c]) = u.trimEnd := by
    intro u
    simp [Text.trimEnd, hc]
  unfold Text.trim Text.trimStart
  rw [List.dropWhile_append]
  split
  · rename_i hnil
    rw [List.isEmpty_iff.1 hnil]
    simp [Text.trimEnd, hc]
  · exact hend _

/-- A blank is written as one blank character. -/
theorem Chunk.spell_of_isGap {ch : Chunk} (h : ch.isGap = true) :
    ∃ c, isBlank c = true ∧ ch.spell = [c] := by
  cases ch with
  | word w => simp [Chunk.isGap] at h
  | other p =>
    cases p with
    | group inside => simp [Chunk.isGap] at h
    | leaf t =>
      cases t with
      | quoted form body => simp [Chunk.isGap, isBlankCode] at h
      | code c =>
        refine ⟨c, h, ?_⟩
        simp [Chunk.spell, Chunk.phrases, tokensOfAll, tokens, Token.spell]

theorem predicateText_cons (h : blank.2.isGap = true) (xs : List (Role × Chunk)) :
    predicateText (blank :: xs) = predicateText xs := by
  obtain ⟨c, hc, hspell⟩ := Chunk.spell_of_isGap h
  rw [predicateText, List.flatMap_cons, hspell]
  exact dropEnds_cons hc _

theorem predicateText_concat (h : blank.2.isGap = true) (xs : List (Role × Chunk)) :
    predicateText (xs ++ [blank]) = predicateText xs := by
  obtain ⟨c, hc, hspell⟩ := Chunk.spell_of_isGap h
  rw [predicateText, List.flatMap_append, List.flatMap_singleton, hspell]
  exact trim_concat hc _

theorem blocksOf_cons (h : blank.2.isGap = true) (hrole : blank.1 = .part)
    (xs : List (Role × Chunk)) : blocksOf (blank :: xs) = blocksOf xs := by
  refine map_splitOnP_cons (by simp [hrole]) (fun block => ?_) xs
  exact map_splitOnP_cons (by simp [hrole]) (predicateText_cons h) block

theorem blocksOf_concat (h : blank.2.isGap = true) (hrole : blank.1 = .part)
    (xs : List (Role × Chunk)) : blocksOf (xs ++ [blank]) = blocksOf xs := by
  refine map_splitOnP_concat (by simp [hrole]) (fun block => ?_) xs
  exact map_splitOnP_concat (by simp [hrole]) (predicateText_concat h) block

/-- An `OR` puts blocks one behind the other. -/
theorem blocksOf_or {ch : Chunk} (xs ys : List (Role × Chunk)) :
    blocksOf (xs ++ (.or, ch) :: ys) = blocksOf xs ++ blocksOf ys := by
  rw [blocksOf, List.splitOnP_append_cons _ _ (by simp), List.map_append]
  rfl

/-- An `AND` makes one block of the two that it stands between. -/
theorem blocksOf_and {ch : Chunk} (xs ys : List (Role × Chunk)) :
    blocksOf (xs ++ (.and, ch) :: ys) = mergeWith (· ++ ·) (blocksOf xs) (blocksOf ys) := by
  have hpredicates : ∀ a b,
      predicatesOf (a ++ (.and, ch) :: b) = predicatesOf a ++ predicatesOf b := by
    intro a b
    rw [predicatesOf, List.splitOnP_append_cons _ _ (by simp), List.map_append]
    rfl
  obtain ⟨y, rest, hy⟩ := List.exists_cons_of_ne_nil
    (List.splitOnP_ne_nil (fun piece : Role × Chunk => piece.1 == .or) ys)
  have hcons : ((Role.and, ch) :: ys).splitOnP (fun piece => piece.1 == .or) =
      ((.and, ch) :: y) :: rest := by
    rw [List.splitOnP_cons_eq_if_modifyHead, hy]
    rfl
  rw [blocksOf, splitOnP_append, hcons,
    mergeWith_cons_map _ ((Role.and, ch) :: ·) (List.splitOnP_ne_nil _ _), ← hy]
  exact map_mergeWith hpredicates _ _

/-- What is all one predicate is one block. -/
theorem blocksOf_part (h : ∀ piece ∈ xs, piece.1 = .part) : blocksOf xs = [[predicateText xs]] := by
  rw [blocksOf, List.splitOnP_eq_singleton fun piece hp => by simp [h piece hp],
    List.map_singleton, predicatesOf,
    List.splitOnP_eq_singleton fun piece hp => by simp [h piece hp], List.map_singleton]

end SqlCompose
