import SqlCompose.Proofs.Algebra.Atoms

/-!
# Conditions mean what they say

The text of a regular condition is read as the blocks of its formulas
(`Condition.render_reads`).  `ReadsAs` ties a text to blocks, and the
connectives of the library tie joined texts to joined blocks.

The library keeps the mark of an alternative inside of the written text and
finds it again by its first letters.  `Writes` says what an element of a
condition is: either a text that reads as one unmarked formula, or the mark
in front of a text that reads as a marked sequence.  `writes_parts` is the
induction over conditions; the texts behind a mark begin no predicate with
`OR`, so no element is mistaken for a marked one.
-/

namespace SqlCompose

open Token Phrase

/-! ## Blocks of sequences -/

theorem blocksOfSequence_ne_nil (e : Element) (s : List Element) :
    blocksOfSequence (e :: s) ≠ [] := by
  rw [blocksOfSequence]
  split
  · simp
  · cases blocksOfSequence s <;> simp [addToBlock]

theorem blocksOfSequence_cons_cons (x y : Element) (s : List Element) :
    blocksOfSequence (x :: y :: s) =
      if y.marked then [x.formula] :: blocksOfSequence (y :: s)
      else addToBlock x.formula (blocksOfSequence (y :: s)) :=
  rfl

theorem blocksOfSequence_markFirst (s : List Element) :
    blocksOfSequence (markFirst s) = blocksOfSequence s := by
  cases s <;> rfl

theorem addToBlock_append (f : Formula) {xs : List (List Formula)} (h : xs ≠ [])
    (ys : List (List Formula)) : addToBlock f (xs ++ ys) = addToBlock f xs ++ ys := by
  cases xs with
  | nil => exact absurd rfl h
  | cons x xs => rfl

theorem addToBlock_mergeWith (f : Formula) {xs : List (List Formula)} (h : xs ≠ [])
    (ys : List (List Formula)) :
    addToBlock f (mergeWith (· ++ ·) xs ys) = mergeWith (· ++ ·) (addToBlock f xs) ys := by
  cases xs with
  | nil => exact absurd rfl h
  | cons x xs =>
    cases xs with
    | nil => cases ys <;> rfl
    | cons x' xs => rfl

/-- A marked element begins a new block. -/
theorem blocksOfSequence_append_marked {s : List Element} (hs : s ≠ []) {e : Element}
    (he : e.marked = true) (s' : List Element) :
    blocksOfSequence (s ++ e :: s') = blocksOfSequence s ++ blocksOfSequence (e :: s') := by
  induction s with
  | nil => exact absurd rfl hs
  | cons x s ih =>
    cases s with
    | nil => simp [blocksOfSequence, he, addToBlock]
    | cons y s =>
      rw [List.cons_append, List.cons_append, blocksOfSequence_cons_cons,
        blocksOfSequence_cons_cons, ← List.cons_append, ih (by simp)]
      by_cases hy : y.marked = true
      · rw [if_pos hy, if_pos hy, List.cons_append]
      · rw [if_neg hy, if_neg hy]
        exact addToBlock_append _ (blocksOfSequence_ne_nil y s) _

/-- An unmarked element belongs to the block before it. -/
theorem blocksOfSequence_append_unmarked {s : List Element} (hs : s ≠ []) {e : Element}
    (he : e.marked = false) (s' : List Element) :
    blocksOfSequence (s ++ e :: s') =
      mergeWith (· ++ ·) (blocksOfSequence s) (blocksOfSequence (e :: s')) := by
  induction s with
  | nil => exact absurd rfl hs
  | cons x s ih =>
    cases s with
    | nil =>
      obtain ⟨b, bs, hb⟩ := List.exists_cons_of_ne_nil (blocksOfSequence_ne_nil e s')
      rw [List.singleton_append, blocksOfSequence_cons_cons, he, if_neg (by simp), hb]
      rfl
    | cons y s =>
      rw [List.cons_append, List.cons_append, blocksOfSequence_cons_cons,
        blocksOfSequence_cons_cons, ← List.cons_append, ih (by simp)]
      by_cases hy : y.marked = true
      · rw [if_pos hy, if_pos hy]
        exact (mergeWith_cons _ _ (blocksOfSequence_ne_nil y s) _).symm
      · rw [if_neg hy, if_neg hy]
        exact addToBlock_mergeWith _ (blocksOfSequence_ne_nil y s) _

/-! ## Texts that read as blocks -/

/-- A text that says something and is read as blocks of formulas. -/
structure ReadsAs (t : Text) (blocks : List (List Formula)) : Prop where
  solid : t.blank = false
  reads : ∃ ps, Expression t ps ∧ BeginsPredicate ps ∧
    List.Forall₂ (List.Forall₂ Denotes) (phraseBlocks ps) blocks

variable {t u : Text} {bs bs' : List (List Formula)}

theorem forall₂_mergeWith {α β : Type} {r : α → β → Prop} {xs ys : List (List α)}
    {xs' ys' : List (List β)} (h : List.Forall₂ (List.Forall₂ r) xs xs')
    (h' : List.Forall₂ (List.Forall₂ r) ys ys') :
    List.Forall₂ (List.Forall₂ r) (mergeWith (· ++ ·) xs ys) (mergeWith (· ++ ·) xs' ys') := by
  induction h with
  | nil => exact h'
  | cons hx hxs ih =>
    cases hxs with
    | nil =>
      cases h' with
      | nil => exact .cons hx .nil
      | cons hy hys => exact .cons (List.rel_append hx hy) hys
    | cons hx' hxs => exact .cons hx ih

theorem exists_solid (h : t.blank = false) : ∃ c ∈ t, isBlank c = false := by
  rw [Bool.eq_false_iff, ne_eq, Text.blank_iff] at h
  simpa using h

theorem solid_append (h : t.blank = false) (u : Text) : (t ++ u).blank = false := by
  obtain ⟨c, hc, hblank⟩ := exists_solid h
  exact blank_eq_false (List.mem_append_left u hc) hblank

/-- Only blanks are left out at the end. -/
theorem solid_trimEnd (h : t.blank = false) : t.trimEnd.blank = false := by
  obtain ⟨c, hc, hblank⟩ := exists_solid h
  refine blank_eq_false ?_ hblank
  have hsplit : c ∈ t.reverse.takeWhile isBlank ++ t.reverse.dropWhile isBlank := by
    rw [List.takeWhile_append_dropWhile]
    exact List.mem_reverse.2 hc
  rcases List.mem_append.1 hsplit with hdropped | hkept
  · exact absurd (List.mem_takeWhile_imp hdropped) (by simp [hblank])
  · exact List.mem_reverse.2 hkept

/-- What stands before a text that says something is no blank at the end. -/
theorem trimEnd_append (before : Text) (h : t.blank = false) :
    Text.trimEnd (before ++ t) = before ++ t.trimEnd := by
  have hend : ¬(t.reverse.dropWhile isBlank).isEmpty = true := by
    intro hempty
    refine ne_nil_of_blank (solid_trimEnd h) ?_
    rw [Text.trimEnd, List.isEmpty_iff.1 hempty]
    rfl
  rw [Text.trimEnd, List.reverse_append, List.dropWhile_append, if_neg hend, List.reverse_append,
    List.reverse_reverse, Text.trimEnd]

namespace ReadsAs

theorem of_isAtom (h : IsAtom t) : ReadsAs t [[.atom t.trim]] := by
  obtain ⟨ps, hexpression, hpart⟩ := h.atomic
  have hne : ps ≠ [] := by
    rintro rfl
    exact ne_nil_of_blank h.solid hexpression.spelled.symm
  refine ⟨h.solid, ps, hexpression, beginsPredicate_of_part hne hpart, ?_⟩
  rw [hexpression.blocks_of_part hpart]
  exact .cons (.cons (.atom _) .nil) .nil

theorem and (ht : ReadsAs t bs) (hu : ReadsAs u bs') :
    ReadsAs (t ++ " AND " ++ u) (mergeWith (· ++ ·) bs bs') := by
  obtain ⟨hsolid, ps, hps, hbegins, hblocks⟩ := ht
  obtain ⟨_, qs, hqs, _, hblocks'⟩ := hu
  obtain ⟨hjoined, heq⟩ := hps.and hqs
  refine ⟨?_, _, hjoined, hbegins.join _ _, ?_⟩
  · rw [List.append_assoc]
    exact solid_append hsolid _
  · rw [heq]
    exact forall₂_mergeWith hblocks hblocks'

theorem or (ht : ReadsAs t bs) (hu : ReadsAs u bs') :
    ReadsAs (t ++ " OR " ++ u) (bs ++ bs') := by
  obtain ⟨hsolid, ps, hps, hbegins, hblocks⟩ := ht
  obtain ⟨_, qs, hqs, _, hblocks'⟩ := hu
  obtain ⟨hjoined, heq⟩ := hps.or hqs
  refine ⟨?_, _, hjoined, hbegins.join _ _, ?_⟩
  · rw [List.append_assoc]
    exact solid_append hsolid _
  · rw [heq]
    exact List.rel_append hblocks hblocks'

theorem read (h : ReadsAs t bs) :
    ∃ blocks, readExpression t = some blocks ∧ List.Forall₂ (List.Forall₂ Denotes) blocks bs := by
  obtain ⟨hsolid, ps, hps, _, hblocks⟩ := h
  exact ⟨_, hps.read hsolid, hblocks⟩

theorem bracketed (h : ReadsAs t bs) : ReadsAs (Text.bracketed t) [[.either bs]] := by
  obtain ⟨blocks, hread, hdenotes⟩ := h.read
  obtain ⟨_, ps, hps, _, _⟩ := h
  obtain ⟨hbracketed, heq⟩ := hps.bracketed
  refine ⟨blank_eq_false (c := '(') (by simp [Text.bracketed]) rfl, _, hbracketed,
    ⟨.other (group ps), [], rfl, rfl⟩, ?_⟩
  rw [heq]
  exact .cons (.cons (.either hread hdenotes) .nil) .nil

theorem trimEnd (h : ReadsAs t bs) : ReadsAs t.trimEnd bs := by
  obtain ⟨hsolid, ps, hps, hbegins, hblocks⟩ := h
  obtain ⟨qs, hqs, hstart, heq⟩ := hps.trimEnd
  have hsolid := solid_trimEnd hsolid
  have hne : qs ≠ [] := by
    rintro rfl
    exact ne_nil_of_blank hsolid hqs.spelled.symm
  refine ⟨hsolid, qs, hqs, hbegins.of_isPrefix hne hstart, ?_⟩
  rw [heq]
  exact hblocks

theorem unmarked (h : ReadsAs t bs) (r : Text) : Condition.marked (t ++ ' ' :: r) = false := by
  obtain ⟨_, ps, hps, hbegins, _⟩ := h
  exact hps.unmarked hbegins r

theorem ne_nil (h : ReadsAs t bs) : bs ≠ [] := by
  obtain ⟨_, ps, _, _, hblocks⟩ := h
  rintro rfl
  have hnone := List.forall₂_nil_right_iff.1 hblocks
  rw [phraseBlocks, blocksOf, List.map_eq_nil_iff] at hnone
  exact List.splitOnP_ne_nil _ _ hnone

end ReadsAs

/-! ## Elements -/

/-- What an element of a condition is written as. -/
inductive Writes : Text → List Element → Prop
  | single {t : Text} {f : Formula} (h : ReadsAs t [[f]]) : Writes t [⟨false, f⟩]
  | alternative {t : Text} {s : List Element} (h : ReadsAs t (blocksOfSequence s)) :
      Writes (Condition.mark ++ t) (markFirst s)

/-- Elements that are written one by one. -/
inductive WritesAll : List Text → List Element → Prop
  | nil : WritesAll [] []
  | cons {part : Text} {parts : List Text} {s s' : List Element} (h : Writes part s)
      (hs : WritesAll parts s') : WritesAll (part :: parts) (s ++ s')

theorem WritesAll.singleton {part : Text} {s : List Element} (h : Writes part s) :
    WritesAll [part] s := by
  simpa using WritesAll.cons h .nil

theorem WritesAll.append {ps qs : List Text} {s s' : List Element} (h : WritesAll ps s)
    (h' : WritesAll qs s') : WritesAll (ps ++ qs) (s ++ s') := by
  induction h with
  | nil => exact h'
  | cons hpart _ ih =>
    rw [List.append_assoc]
    exact .cons hpart ih

theorem ReadsAs.exists_cons {s : List Element} (h : ReadsAs t (blocksOfSequence s)) :
    ∃ e rest, s = e :: rest := by
  cases s with
  | nil => exact absurd rfl h.ne_nil
  | cons e rest => exact ⟨e, rest, rfl⟩

theorem ReadsAs.not_marked (h : ReadsAs t bs) : Condition.marked t = false := by
  have hspaced := h.unmarked []
  rw [Bool.eq_false_iff, ne_eq, Condition.marked, List.isPrefixOf_iff_prefix] at hspaced ⊢
  exact fun hstart => hspaced (hstart.trans (List.prefix_append _ _))

/-- An element behind a text is read behind the blocks of the text. -/
theorem Writes.behind {s s' : List Element} {part : Text} (ht : ReadsAs t (blocksOfSequence s))
    (h : Writes part s') :
    ReadsAs (t ++ (Condition.joiner part " AND " ++ part)) (blocksOfSequence (s ++ s')) := by
  obtain ⟨e, rest, rfl⟩ := ht.exists_cons
  cases h with
  | single hpart =>
    rw [blocksOfSequence_append_unmarked (by simp) rfl, Condition.joiner, hpart.not_marked,
      if_neg (by simp), ← List.append_assoc]
    exact ht.and hpart
  | @alternative u s' hpart =>
    obtain ⟨e', rest', rfl⟩ := hpart.exists_cons
    have hmarked : Condition.marked (Condition.mark ++ u) = true := by
      simp [Condition.marked]
    have hmark : blocksOfSequence ({ e' with marked := true } :: rest') =
        blocksOfSequence (e' :: rest') := rfl
    rw [markFirst, blocksOfSequence_append_marked (by simp) rfl, hmark, Condition.joiner,
      if_pos hmarked]
    have hjoined := ht.or hpart
    simpa [Condition.mark, lit] using hjoined

/-- Elements behind a text are read behind the blocks of the text. -/
theorem WritesAll.chain {s s' : List Element} {parts : List Text}
    (ht : ReadsAs t (blocksOfSequence s)) (h : WritesAll parts s') :
    ReadsAs (t ++ Condition.chain " AND " parts) (blocksOfSequence (s ++ s')) := by
  induction h generalizing t s with
  | nil => simpa [Condition.chain] using ht
  | @cons part parts s₁ s₂ hpart _ ih =>
    have hrest := ih (hpart.behind ht)
    simpa [Condition.chain] using hrest

/-- What joins an element to others begins with a space. -/
theorem chain_eq_nil_or (unmarked : Text) (parts : List Text) :
    Condition.chain (' ' :: unmarked) parts = [] ∨
      ∃ r, Condition.chain (' ' :: unmarked) parts = ' ' :: r := by
  cases parts with
  | nil => exact .inl rfl
  | cons part parts =>
    refine .inr ?_
    rw [Condition.chain, List.flatMap_cons, Condition.joiner]
    split <;> exact ⟨_, rfl⟩

theorem ReadsAs.chain_not_marked (h : ReadsAs t bs) (unmarked : Text) (parts : List Text) :
    Condition.marked (t ++ Condition.chain (' ' :: unmarked) parts) = false := by
  rcases chain_eq_nil_or unmarked parts with hnil | ⟨r, hr⟩
  · rw [hnil, List.append_nil]
    exact h.not_marked
  · rw [hr]
    exact h.unmarked r

/-- Elements that say something are read as one expression. -/
theorem WritesAll.conjunction {s : List Element} {parts : List Text} (h : WritesAll parts s)
    (hne : parts ≠ []) : ReadsAs (Condition.conjunction parts) (blocksOfSequence s) := by
  cases h with
  | nil => exact absurd rfl hne
  | @cons part rest s₁ s₂ hpart hrest =>
    cases hpart with
    | single ht =>
      have hmarked : Condition.marked (part ++ Condition.chain " AND " rest) = false :=
        ht.chain_not_marked (lit "AND ") rest
      have hnone : Condition.mark.isPrefixOf? (part ++ Condition.chain " AND " rest) = none := by
        rw [Condition.marked, ← List.isSome_isPrefixOf?_eq_isPrefixOf] at hmarked
        exact Option.isSome_eq_false_iff.1 hmarked |> Option.isNone_iff_eq_none.1
      rw [Condition.conjunction, hnone, Option.getD_none]
      exact hrest.chain ht
    | @alternative u s ht =>
      obtain ⟨e, more, rfl⟩ := ht.exists_cons
      have hsome : Condition.mark.isPrefixOf?
          (Condition.mark ++ u ++ Condition.chain " AND " rest) =
            some (u ++ Condition.chain " AND " rest) := by
        rw [List.append_assoc]
        exact List.isPrefixOf?_eq_some_iff_append_eq.2 rfl
      rw [Condition.conjunction, hsome, Option.getD_some]
      have hall := hrest.chain ht
      rwa [← blocksOfSequence_markFirst] at hall

/-- The arms of a disjunction are read one behind the other. -/
theorem readsAs_arms {texts : List Text} {seqs : List (List Element)} (ht : ReadsAs t bs)
    (h : List.Forall₂ (fun u s => ReadsAs u (blocksOfSequence s)) texts seqs) :
    ReadsAs (t ++ Condition.chain " OR " texts) (bs ++ seqs.flatMap blocksOfSequence) := by
  induction h generalizing t bs with
  | nil => simpa [Condition.chain] using ht
  | @cons u s texts seqs hu _ ih =>
    have hrest := ih (ht.or hu)
    have hjoiner : Condition.joiner u " OR " = " OR " := by
      rw [Condition.joiner, hu.not_marked, if_neg (by simp)]
    simpa [Condition.chain, hjoiner] using hrest

theorem trim_mark_append (h : t.blank = false) :
    Text.trim (Condition.mark ++ t) = Condition.mark ++ t.trimEnd := by
  have hstart : Text.trimStart (Condition.mark ++ t) = Condition.mark ++ t := rfl
  rw [Text.trim, hstart, trimEnd_append _ h]

theorem element_eq_singleton {part : Text} (h : part ≠ []) : Condition.element part = [part] := by
  rw [Condition.element, if_neg (by simpa using h)]

/-- A disjunction is written as what its arms mean, whatever the number of arms is. -/
theorem writesAll_disjunction {texts : List Text} {seqs : List (List Element)}
    (h : List.Forall₂ (fun u s => ReadsAs u (blocksOfSequence s)) texts seqs) :
    WritesAll (Condition.element (Condition.disjunction texts).trim) (disjoin seqs) := by
  cases h with
  | nil => exact .nil
  | @cons t s texts seqs ht hrest =>
    cases hrest with
    | nil =>
      rw [Condition.disjunction, trim_mark_append ht.solid, element_eq_singleton (by simp
        [Condition.mark, lit]), disjoin]
      exact .singleton (.alternative ht.trimEnd)
    | @cons u s' texts seqs hu hrest =>
      have hinside := readsAs_arms ht (.cons hu hrest)
      rw [Condition.disjunction, trim_bracketed, element_eq_singleton (by simp [Text.bracketed])]
      · exact .singleton (.single hinside.bracketed)
      · simp

/-! ## Conditions -/

/-- An arm either says nothing or is read as its sequence. -/
theorem WritesAll.arm {parts : List Text} {s : List Element} (h : WritesAll parts s) :
    (Condition.conjunction parts = [] ∧ s = []) ∨
      ReadsAs (Condition.conjunction parts) (blocksOfSequence s) := by
  cases h with
  | nil => exact .inl ⟨rfl, rfl⟩
  | cons hpart hrest => exact .inr ((WritesAll.cons hpart hrest).conjunction (by simp))

namespace Condition

theorem forall₂_nonempty {texts : List Text} {seqs : List (List Element)}
    (h : List.Forall₂ (fun t s => (t = [] ∧ s = []) ∨ ReadsAs t (blocksOfSequence s)) texts seqs) :
    List.Forall₂ (fun t s => ReadsAs t (blocksOfSequence s)) (Text.nonempty texts)
      (seqs.filter fun arm => !arm.isEmpty) := by
  induction h with
  | nil => exact .nil
  | @cons t s texts seqs harm _ ih =>
    rw [Text.nonempty, List.filter_cons, List.filter_cons]
    rcases harm with ⟨rfl, rfl⟩ | hreads
    · exact ih
    · obtain ⟨e, rest, rfl⟩ := hreads.exists_cons
      have ht : t.isEmpty = false := by simpa using ne_nil_of_blank hreads.solid
      rw [ht]
      exact .cons hreads ih

theorem writes_atom {part : Text} (h : IsAtom part) :
    WritesAll (element part) [⟨false, .atom part.trim⟩] := by
  rw [element_eq_singleton (ne_nil_of_blank h.solid)]
  exact .singleton (.single (.of_isAtom h))

theorem writes_entries {entries : List (Text × Operand)}
    (h : ∀ entry ∈ entries, entry.2.Regular entry.1) :
    WritesAll (Text.nonempty (entries.map fun (field, operand) => operand.render field))
      (entries.map fun (field, operand) => ⟨false, .atom (operand.render field).trim⟩) := by
  induction entries with
  | nil => exact .nil
  | cons entry rest ih =>
    have hentry := entry.2.isAtom_render (h entry (by simp))
    have hrest := ih fun e he => h e (by simp [he])
    have hne : (entry.2.render entry.1).isEmpty = false := by
      simpa using ne_nil_of_blank hentry.solid
    rw [List.map_cons, List.map_cons, Text.nonempty, List.filter_cons, hne]
    exact .cons (.single (.of_isAtom hentry)) hrest

mutual

/-- The elements of a regular condition are written one by one. -/
theorem writes_parts : ∀ c : Condition, c.Regular → WritesAll c.parts c.sequence
  | sql text, h => by
    have hatom := writes_atom (isAtom_of_isPredicate h)
    rwa [show text.trim.trim = text.trim from dropEnds_dropEnds isBlank text] at hatom
  | criterion c, h => writes_atom (c.isAtom_render h)
  | all items, h => by
    rw [parts, sequence]
    exact writes_partsOfAll items h
  | any arms, h => by
    rw [parts, sequence]
    exact writesAll_disjunction (forall₂_nonempty (writes_arms arms h))
  | fields entries, h => by
    rw [parts, sequence]
    exact writes_entries h

theorem writes_partsOfAll : ∀ items : List Condition, RegularItems items →
    WritesAll (partsOfAll items) (sequenceOfAll items)
  | [], _ => .nil
  | item :: rest, h => by
    rw [partsOfAll, sequenceOfAll]
    exact (writes_parts item h.1).append (writes_partsOfAll rest h.2)

theorem writes_arms : ∀ arms : List Condition, RegularItems arms →
    List.Forall₂ (fun t s => (t = [] ∧ s = []) ∨ ReadsAs t (blocksOfSequence s)) (armTexts arms)
      (sequences arms)
  | [], _ => .nil
  | arm :: rest, h => by
    rw [armTexts, sequences]
    exact .cons (writes_parts arm h.1).arm (writes_arms rest h.2)

end

/-- The text of a regular condition is read as the blocks of its formulas. -/
theorem render_reads {c : Condition} (h : c.Regular) :
    ∃ blocks, readExpression c.render = some blocks ∧
      List.Forall₂ (List.Forall₂ Denotes) blocks (blocksOfSequence c.sequence) := by
  rcases (writes_parts c h).arm with ⟨hnil, hseq⟩ | hreads
  · rw [render, hnil, hseq]
    exact ⟨[], rfl, .nil⟩
  · exact hreads.read

example : readExpression (all [sql "a = 'x OR y'", any [sql "b", all [sql "c", any [sql "d"]]],
      any [all [], fields [("e", .criterion (.unbound true (.between (.int 1) (.int 2))))]]]).render =
    some [[lit "a = 'x OR y'", lit "(b OR c OR d)"], [lit "e NOT BETWEEN 1 AND 2"]] := by
  decide +kernel

/-- A connective inside of a literal, an arm that is alone beside one that says nothing,
two arms, and the negation of a `BETWEEN`. -/
def nested : Condition :=
  all [sql "a = 'x OR y'",
    any [fields [("b", .value (.int 1)), ("c", .criterion (.unbound false .isNull))], all []],
    any [sql "d", sql "e = (f OR g)"],
    criterion ⟨some "h", ⟨true, .between (.int 1) (.int 2)⟩⟩]

theorem render_reads_nested :
    nested.Regular ∧ ∃ blocks, readExpression nested.render = some blocks ∧
      List.Forall₂ (List.Forall₂ Denotes) blocks (blocksOfSequence nested.sequence) := by
  have hsingle : ∀ t ∈ [lit "a = 'x OR y'", lit "d", lit "e = (f OR g)"],
      IsPredicate t.trim := by decide +kernel
  have hentries : (fields [("b", .value (.int 1)),
      ("c", .criterion (.unbound false .isNull))]).Regular := by
    simp only [Regular, List.forall_mem_cons]
    exact ⟨⟨by decide, by decide⟩, ⟨⟨_, rfl, by decide⟩, ⟨⟩⟩, by simp⟩
  have hbetween : (criterion ⟨some "h", ⟨true, .between (.int 1) (.int 2)⟩⟩).Regular :=
    ⟨⟨_, rfl, by decide⟩, by decide, by decide⟩
  simp only [List.forall_mem_cons] at hsingle
  obtain ⟨ha, hd, he, -⟩ := hsingle
  have hregular : nested.Regular := ⟨ha, ⟨hentries, ⟨⟩, ⟨⟩⟩, ⟨hd, he, ⟨⟩⟩, hbetween, ⟨⟩⟩
  exact ⟨hregular, render_reads hregular⟩

end Condition

end SqlCompose
