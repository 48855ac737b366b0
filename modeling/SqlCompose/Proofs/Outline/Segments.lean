import SqlCompose.Proofs.Outline.Whole

/-!
# Segments of a statement

`cut` cuts the words of a statement at the words that clauses begin with, and
`read` tells the clauses of a `SELECT` from the segments, in the order of SQL.
It reads a text alone, and knows nothing of the query that was written.

The lemmas say what a piece of a statement becomes: words without keywords stay
together (`cut_free`), a piece is cut apart from what stands behind it
(`cut_append`), a clause is one segment or none (`cut_clause`), and `take` finds
it again (`take_optionals`).
-/

namespace SqlCompose

namespace Outline

/-- A word that a clause begins with, and the words up to the next one. -/
structure Segment where
  blank : Char
  keyword : Text
  behind : List Word
  deriving DecidableEq

/-- All words of a segment. -/
def Segment.words (s : Segment) : List Word := ⟨s.blank, s.keyword⟩ :: s.behind

/-- What stands in front of the first keyword, and the segments behind it. -/
def cut : List Word → List Word × List Segment
  | [] => ([], [])
  | w :: rest =>
    let (front, segments) := cut rest
    if clauseWords.contains w.text then ([], ⟨w.blank, w.text, front⟩ :: segments)
    else (w :: front, segments)

/-- Words as they are written, without the blank in front of them. -/
def body (ws : List Word) : Text := (spell ws).tail

/-- What stands behind a keyword, if it is the next one, and the segments that are left. -/
def take (keyword : Text) : List Segment → Option (List Word) × List Segment
  | [] => (none, [])
  | s :: rest => if s.keyword = keyword then (some s.behind, rest) else (none, s :: rest)

/-- The clauses of a `SELECT`.  What it does not have is empty. -/
structure Clauses where
  distinct : Bool
  top : Text
  fields : Text
  table : Text
  joins : Text := []
  filter : Text := []
  groupBy : Text := []
  having : Text := []
  orderBy : Text := []
  limit : Text := []
  /-- What is not part of any clause. -/
  rest : List Segment := []
  deriving DecidableEq

/-- Reads what stands behind the table, clause by clause. -/
def readBehind (c : Clauses) (segments : List Segment) : Clauses :=
  let joins := segments.takeWhile fun s => joinWords.contains s.keyword
  let segments := segments.dropWhile fun s => joinWords.contains s.keyword
  let (filter, segments) := take "WHERE" segments
  let (groupBy, segments) := take "GROUP" segments
  let (having, segments) := take "HAVING" segments
  let (orderBy, segments) := take "ORDER" segments
  let (limit, segments) := take "LIMIT" segments
  { c with
    joins := body (joins.flatMap Segment.words)
    filter := body (filter.getD [])
    -- The second word of these two is `BY`.
    groupBy := body (groupBy.getD []).tail
    having := body (having.getD [])
    orderBy := body (orderBy.getD []).tail
    limit := body (limit.getD [])
    rest := segments }

/-- The words of the columns.  They stand behind the count of `TOP`, or else behind `DISTINCT`,
or else behind the first word of all. -/
def columnWords (front : List Word) : Option (List Word) → Option (List Word) → List Word
  | _, some top => top.tail
  | some distinct, none => distinct
  | none, none => front.tail

/-- Reads the clauses of a `SELECT` from its text. -/
def read (sql : Text) : Clauses :=
  let (front, segments) := cut (words ' ' sql)
  let (distinct, segments) := take "DISTINCT" segments
  let (top, segments) := take "TOP" segments
  let (table, segments) := take "FROM" segments
  readBehind
    { distinct := distinct.isSome
      top := body ((top.getD []).take 1)
      fields := body (columnWords front distinct top)
      table := body (table.getD []) }
    segments

/-! ## The words of pieces -/

variable {t u : Text} {ws us more : List Word} {k keyword : Text}

/-- The words of a piece of a statement, if there is any. -/
def wordsOf? (t : Text) : Option (List Word) := if t.isEmpty then none else some (words ' ' t)

def wordsOf (t : Text) : List Word := (wordsOf? t).getD []

@[simp] theorem wordsOf_nil : wordsOf [] = [] := rfl

theorem wordsOf_of_ne_nil (h : t ≠ []) : wordsOf t = words ' ' t := by
  rw [wordsOf, wordsOf?, if_neg (by simpa using h), Option.getD_some]

/-- A piece is read back from its words. -/
theorem body_wordsOf (t : Text) : body (wordsOf t) = t := by
  by_cases h : t = []
  · rw [h]
    rfl
  · rw [wordsOf_of_ne_nil h, body, spell_words, List.tail_cons]

theorem Whole.wordsOf {reserved : List Text} (h : Whole reserved t) :
    ∀ w ∈ wordsOf t, w.text ∉ reserved := by
  by_cases hnil : t = []
  · rw [hnil]
    simp
  · rw [wordsOf_of_ne_nil hnil]
    exact h.words ' '

/-- The words of a statement are those of its pieces. -/
theorem wordsOf_spaced {pieces : List Text} (hpieces : ∀ piece ∈ pieces, Whole [] piece) :
    wordsOf (Text.spaced pieces) = pieces.flatMap wordsOf := by
  induction pieces with
  | nil => rfl
  | cons piece rest ih =>
    obtain ⟨hpiece, hrest⟩ := List.forall_mem_cons.1 hpieces
    rw [List.flatMap_cons, ← ih hrest]
    by_cases hnil : piece = []
    · rw [hnil, Text.spaced_nil_cons, wordsOf_nil, List.nil_append]
    · rw [Text.spaced_cons hnil]
      split
      · rename_i hempty
        rw [hempty, wordsOf_nil, List.append_nil]
      · rename_i hspaced
        rw [wordsOf_of_ne_nil (by simp), wordsOf_of_ne_nil hnil, wordsOf_of_ne_nil hspaced]
        exact words_blank ' ' hpiece.complete rfl _

/-! ## Cutting -/

/-- Nothing is lost. -/
theorem cut_words (ws : List Word) : (cut ws).1 ++ (cut ws).2.flatMap Segment.words = ws := by
  induction ws with
  | nil => rfl
  | cons w ws ih =>
    rw [cut]
    dsimp only
    split
    · simpa [Segment.words] using ih
    · simpa using ih

/-- Words without keywords stay together. -/
theorem cut_free (h : ∀ w ∈ ws, w.text ∉ clauseWords) : cut ws = (ws, []) := by
  induction ws with
  | nil => rfl
  | cons w ws ih =>
    obtain ⟨hw, hws⟩ := List.forall_mem_cons.1 h
    rw [cut, ih hws]
    exact if_neg (by simpa using hw)

/-- The words in front of the first keyword belong to what stands before them. -/
theorem cut_append_free (h : ∀ w ∈ ws, w.text ∉ clauseWords) (us : List Word) :
    cut (ws ++ us) = (ws ++ (cut us).1, (cut us).2) := by
  induction ws with
  | nil => rfl
  | cons w ws ih =>
    obtain ⟨hw, hws⟩ := List.forall_mem_cons.1 h
    rw [List.cons_append, cut, ih hws]
    exact if_neg (by simpa using hw)

theorem cut_keyword (hk : k ∈ clauseWords) (blank : Char) (us : List Word) :
    cut (⟨blank, k⟩ :: us) = ([], ⟨blank, k, (cut us).1⟩ :: (cut us).2) := by
  rw [cut]
  exact if_pos (by simpa using hk)

/-- A keyword with words behind it that are none is one segment. -/
theorem cut_segment (hk : k ∈ clauseWords) (blank : Char) (h : ∀ w ∈ ws, w.text ∉ clauseWords) :
    cut (⟨blank, k⟩ :: ws) = ([], [⟨blank, k, ws⟩]) := by
  rw [cut_keyword hk, cut_free h]

/-- Where a keyword begins what stands behind, both sides are cut by themselves. -/
theorem cut_append {front : List Word} {left right : List Segment} (hws : cut ws = (front, left))
    (hus : cut us = ([], right)) : cut (ws ++ us) = (front, left ++ right) := by
  induction ws generalizing front left with
  | nil =>
    obtain ⟨rfl, rfl⟩ := Prod.mk.inj hws
    exact hus
  | cons w ws ih =>
    rw [List.cons_append, cut, ih rfl]
    rw [cut] at hws
    dsimp only at hws ⊢
    split at hws <;> obtain ⟨rfl, rfl⟩ := Prod.mk.inj hws
    · rename_i hw
      exact if_pos hw
    · rename_i hw
      exact if_neg hw

/-- The keywords of segments are words that were cut at. -/
theorem keyword_mem_of_mem_cut {s : Segment} (hs : s ∈ (cut ws).2) :
    s.keyword ∈ clauseWords ∧ ∃ w ∈ ws, w.text = s.keyword := by
  induction ws with
  | nil => cases hs
  | cons w ws ih =>
    rw [cut] at hs
    dsimp only at hs
    split at hs
    · rename_i hw
      rcases List.mem_cons.1 hs with rfl | hs
      · exact ⟨by simpa using hw, w, List.mem_cons_self, rfl⟩
      · obtain ⟨hkeyword, v, hv, htext⟩ := ih hs
        exact ⟨hkeyword, v, List.mem_cons_of_mem _ hv, htext⟩
    · obtain ⟨hkeyword, v, hv, htext⟩ := ih hs
      exact ⟨hkeyword, v, List.mem_cons_of_mem _ hv, htext⟩

/-! ## Clauses as segments -/

/-- The segment of a clause, if there is one. -/
def optional (keyword : Text) (behind : Option (List Word)) : List Segment :=
  (behind.map fun ws => ⟨' ', keyword, ws⟩).toList

/-- The segments of clauses, each with the word that it begins with. -/
def optionals (clauses : List (Text × Option (List Word))) : List Segment :=
  clauses.flatMap fun (keyword, behind) => optional keyword behind

variable {behind : Option (List Word)} {clauses : List (Text × Option (List Word))} {s : Segment}

theorem keyword_of_mem_optional (hs : s ∈ optional keyword behind) : s.keyword = keyword := by
  obtain ⟨ws, -, rfl⟩ := Option.map_eq_some_iff.1 (Option.mem_toList.1 hs)
  rfl

theorem keyword_of_mem_optionals (hs : s ∈ optionals clauses) :
    s.keyword ∈ clauses.map Prod.fst := by
  obtain ⟨⟨keyword, behind⟩, hclause, hs⟩ := List.mem_flatMap.1 hs
  rw [keyword_of_mem_optional hs]
  exact List.mem_map_of_mem hclause

/-- A clause is found where it should stand, and is not missed where it is not there. -/
theorem take_optionals (hother : keyword ∉ clauses.map Prod.fst) :
    take keyword (optionals ((keyword, behind) :: clauses)) = (behind, optionals clauses) := by
  cases behind with
  | some ws => exact if_pos rfl
  | none =>
    show take keyword (optionals clauses) = (none, optionals clauses)
    cases hrest : optionals clauses with
    | nil => rfl
    | cons s rest =>
      have hs : s.keyword ∈ clauses.map Prod.fst :=
        keyword_of_mem_optionals (hrest ▸ List.mem_cons_self)
      have hne : s.keyword ≠ keyword := fun heq => hother (heq ▸ hs)
      rw [take, if_neg hne]

/-- What stands behind the first word of a clause: the other words of its keyword, and its body. -/
def following (more : List Word) (t : Text) : Option (List Word) := (wordsOf? t).map (more ++ ·)

theorem body_following (t : Text) : body ((following [] t).getD []) = t := by
  have hbody := body_wordsOf t
  rw [wordsOf] at hbody
  rw [following]
  generalize wordsOf? t = ws at hbody
  cases ws <;> exact hbody

/-- The second word of a keyword is not part of the body. -/
theorem body_tail_following (w : Word) (t : Text) :
    body ((following [w] t).getD []).tail = t := by
  have hbody := body_wordsOf t
  rw [wordsOf] at hbody
  rw [following]
  generalize wordsOf? t = ws at hbody
  cases ws <;> exact hbody

/-- A clause in front of others is one segment, or none. -/
theorem cut_clause (keyword : Text) (hwords : words ' ' keyword = ⟨' ', k⟩ :: more)
    (hcomplete : (Place.start.behind keyword).isOutside = true) (hk : k ∈ clauseWords)
    (hmore : ∀ w ∈ more, w.text ∉ clauseWords) (ht : Whole clauseWords t)
    (hus : cut us = ([], optionals clauses)) :
    cut (wordsOf (Text.clause keyword t) ++ us) =
      ([], optionals ((k, following more t) :: clauses)) := by
  rw [Text.clause, following, wordsOf?]
  split
  · exact hus
  · have hfree : ∀ w ∈ more ++ words ' ' t, w.text ∉ clauseWords := by
      intro w hw
      rcases List.mem_append.1 hw with hw | hw
      · exact hmore w hw
      · exact ht.words ' ' w hw
    rw [wordsOf_of_ne_nil (by simp), words_blank ' ' hcomplete rfl, hwords, List.cons_append]
    exact cut_append (cut_segment hk ' ' hfree) hus

end Outline

end SqlCompose
