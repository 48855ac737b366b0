import SqlCompose.Proofs.Algebra.Conditions

/-!
# A disjunction behind a condition

What a disjunction does to a condition that it is listed behind depends on
how many of its arms say something, not on how many there are.  One such arm
is written behind the mark of an alternative, and widens the condition.  With
none the condition stays as it is, and two or more stand between brackets
behind an `AND`, which narrows it.

* `disjunctionText_cases` is the three ways in which a disjunction is written,
  `marked_disjunctionText_iff` tells the first one from the others.
* `conjunction_concat` puts an unmarked element behind others.
* `Selects` says when a condition that is read as SQL holds of a row, and
  `selects_of_and` that a further requirement holds of no more rows.

Main result: `disjunction_narrows`.
-/

namespace SqlCompose

open Token Phrase

/-! ## Complete texts -/

/-- A text that says something and can stand beside others: its literals, brackets and
`BETWEEN`s are complete. -/
def IsComplete (t : Text) : Prop :=
  t.blank = false ∧ ∃ ps, readPhrases t = some ps ∧ (chunks ps).foldl awaits false = false

instance (t : Text) : Decidable (IsComplete t) :=
  decidable_of_iff (t.blank = false ∧
    ∃ ps ∈ readPhrases t, (chunks ps).foldl awaits false = false) (by simp [IsComplete])

variable {t u : Text} {ps qs : List Phrase}

theorem IsComplete.exists_expression (h : IsComplete t) : ∃ ps, Expression t ps := by
  obtain ⟨_, ps, hps, hsettled⟩ := h
  obtain ⟨ts, hts, hnest⟩ := Option.bind_eq_some_iff.1 hps
  obtain ⟨hspell, hfits⟩ := scan_eq_some_iff.1 hts
  obtain ⟨rfl, hproper⟩ := nest_eq_some_iff.1 hnest
  exact ⟨ps, hspell, hfits, hproper, hsettled⟩

/-- A space between two expressions gives an expression. -/
theorem Expression.spaced (ht : Expression t ps) (hu : Expression u qs) :
    Expression (t ++ ' ' :: u) (ps ++ space :: qs) := by
  refine ⟨?_, ?_, ?_, ?_⟩
  · simp [tokensOfAll, tokens, space, spell, ht.spelled, hu.spelled]
  · have hfits := (fits_append_separator (c := ' ') rfl false _ _).2 ⟨ht.fits, hu.fits⟩
    simpa [tokensOfAll, tokens, space] using hfits
  · intro p hp
    rcases List.mem_append.1 hp with hp | hp
    · exact ht.proper p hp
    · rcases List.mem_cons.1 hp with rfl | hp
      · exact .leaf (by simp) (by simp)
      · exact hu.proper p hp
  · rw [chunks_append_other wordChar?_space, List.foldl_append, ht.settled, List.foldl_cons,
      awaits_other, hu.settled]

/-! ## What a condition holds of -/

/-- A text that is read as SQL holds of a row of which the predicates of one of its blocks
hold. -/
def Selects (holds : Text → Prop) (t : Text) : Prop :=
  ∃ blocks, readExpression t = some blocks ∧
    ∃ block ∈ blocks, ∀ predicate ∈ block, holds predicate

/-- A single block at the end makes one of the blocks before longer. -/
theorem mem_mergeWith_singleton {α : Type} {xs : List (List α)} (hne : xs ≠ []) {y block : List α}
    (h : block ∈ mergeWith (· ++ ·) xs [y]) : ∃ x ∈ xs, x ⊆ block := by
  induction xs with
  | nil => exact absurd rfl hne
  | cons x xs ih =>
    cases xs with
    | nil =>
      obtain rfl : block = x ++ y := by simpa [mergeWith] using h
      exact ⟨x, by simp, List.subset_append_left x y⟩
    | cons x' xs =>
      rw [mergeWith_cons _ x (List.cons_ne_nil x' xs)] at h
      rcases List.mem_cons.1 h with rfl | h
      · exact ⟨block, by simp, List.Subset.refl block⟩
      · obtain ⟨z, hz, hsub⟩ := ih (by simp) h
        exact ⟨z, List.mem_cons_of_mem _ hz, hsub⟩

/-- A further requirement between brackets holds of no more rows. -/
theorem selects_of_and {holds : Text → Prop} {body : Text} (ht : Expression t ps)
    (hsolid : t.blank = false) (hbody : Expression body qs)
    (h : Selects holds (t ++ " AND " ++ Text.bracketed body)) : Selects holds t := by
  obtain ⟨hbracketed, hsingle⟩ := hbody.bracketed
  obtain ⟨hjoined, hblocks⟩ := ht.and hbracketed
  have hsolid' : (t ++ " AND " ++ Text.bracketed body).blank = false := by
    rw [List.append_assoc]
    exact solid_append hsolid _
  have hne : phraseBlocks ps ≠ [] := by
    unfold phraseBlocks blocksOf
    simp
  obtain ⟨blocks, hread, block, hblock, hholds⟩ := h
  rw [hjoined.read hsolid', Option.some.injEq, hblocks, hsingle] at hread
  rw [← hread] at hblock
  obtain ⟨narrower, hmem, hsub⟩ := mem_mergeWith_singleton hne hblock
  exact ⟨phraseBlocks ps, ht.read hsolid, narrower, hmem, fun p hp => hholds p (hsub hp)⟩

namespace Condition

/-! ## How a disjunction is written -/

/-- The texts of the arms that say something. -/
def said (arms : List Condition) : List Text := Text.nonempty (arms.map render)

theorem disjunctionText_eq (arms : List Condition) :
    disjunctionText arms = disjunction (said arms) := by
  rw [disjunctionText, armTexts_eq_map, said]

theorem marked_bracketed (body : Text) : marked (Text.bracketed body) = false := rfl

/-- A disjunction is nothing, an arm behind the mark, or the arms between brackets. -/
theorem disjunctionText_cases (arms : List Condition) :
    (said arms = [] ∧ disjunctionText arms = []) ∨
      (∃ arm, said arms = [arm] ∧ disjunctionText arms = mark ++ arm) ∨
      ∃ first second rest, said arms = first :: second :: rest ∧
        disjunctionText arms = Text.bracketed (first ++ chain " OR " (second :: rest)) := by
  rw [disjunctionText_eq]
  cases hsaid : said arms with
  | nil => exact .inl ⟨rfl, rfl⟩
  | cons first rest =>
    cases rest with
    | nil => exact .inr (.inl ⟨first, rfl, rfl⟩)
    | cons second rest => exact .inr (.inr ⟨first, second, rest, rfl, rfl⟩)

/-- A disjunction is marked exactly if one of its arms says something. -/
theorem marked_disjunctionText_iff (arms : List Condition) :
    marked (disjunctionText arms) = true ↔ (said arms).length = 1 := by
  rcases disjunctionText_cases arms with ⟨hsaid, htext⟩ | ⟨arm, hsaid, htext⟩ |
    ⟨first, second, rest, hsaid, htext⟩
  · rw [hsaid, htext]
    decide
  · rw [hsaid, htext]
    simp [marked]
  · rw [hsaid, htext, marked_bracketed]
    simp

/-- The arms of a disjunction are one expression. -/
theorem expression_chain (ht : Expression t ps) {arms : List Text}
    (harms : ∀ arm ∈ arms, IsComplete arm) :
    ∃ qs, Expression (t ++ chain " OR " arms) qs := by
  induction arms generalizing t ps with
  | nil => exact ⟨ps, by simpa [chain] using ht⟩
  | cons arm arms ih =>
    obtain ⟨qs, hqs⟩ := (harms arm (by simp)).exists_expression
    have hnext : ∃ rs, Expression (t ++ (joiner arm " OR " ++ arm)) rs := by
      unfold joiner
      split
      · exact ⟨_, ht.spaced hqs⟩
      · exact ⟨_, by simpa using (ht.or hqs).1⟩
    obtain ⟨rs, hrs⟩ := hnext
    have hall := ih hrs fun u hu => harms u (List.mem_cons_of_mem _ hu)
    simpa [chain] using hall

/-! ## An element behind others -/

theorem chain_concat (unmarked : Text) (parts : List Text) {part : Text}
    (h : marked part = false) :
    chain unmarked (parts ++ [part]) = chain unmarked parts ++ (unmarked ++ part) := by
  simp [chain, joiner, h]

/-- Whether a text begins with the mark is settled in its first word. -/
theorem isPrefixOf?_mark_append (hne : t ≠ []) (hword : t ≠ lit "OR") (u : Text) :
    mark.isPrefixOf? (t ++ ' ' :: u) = (mark.isPrefixOf? t).map (· ++ ' ' :: u) := by
  rw [show mark = ['O', 'R', ' '] from rfl]
  match t, hne, hword with
  | [c], _, _ => simp [List.isPrefixOf?]
  | [c, d], _, hword =>
    by_cases hc : 'O' = c
    · subst hc
      have hd : 'R' ≠ d := by
        rintro rfl
        exact hword rfl
      simp [List.isPrefixOf?, hd]
    · simp [List.isPrefixOf?, hc]
  | c :: d :: e :: r, _, _ =>
    simp only [List.isPrefixOf?, List.cons_append]
    split
    · split
      · split <;> rfl
      · rfl
    · rfl

/-- An unmarked element stands behind an `AND`, unless what is before it is the bare word
`OR`, which then is taken for a mark. -/
theorem conjunction_concat {parts : List Text} {part : Text} (hne : conjunction parts ≠ [])
    (hword : parts ≠ [lit "OR"]) (h : marked part = false) :
    conjunction (parts ++ [part]) = conjunction parts ++ " AND " ++ part := by
  cases parts with
  | nil => exact absurd rfl hne
  | cons first rest =>
    have hjoined : first ++ chain " AND " (rest ++ [part]) =
        (first ++ chain " AND " rest) ++ ' ' :: (lit "AND " ++ part) := by
      rw [chain_concat _ _ h]
      simp [lit]
    have hsolid : first ++ chain " AND " rest ≠ [] := by
      intro hnil
      rw [conjunction, hnil] at hne
      exact hne rfl
    -- what joins elements has a space in it, so the word is an element of its own
    have hother : first ++ chain " AND " rest ≠ lit "OR" := by
      intro hor
      rcases chain_eq_nil_or (lit "AND ") rest with hnil | ⟨r, hr⟩
      · have hrest : rest = [] := by
          cases rest with
          | nil => rfl
          | cons next rest =>
            simp only [chain, List.flatMap_cons, joiner, List.append_eq_nil_iff] at hnil
            split at hnil <;> simp at hnil
        subst hrest
        apply hword
        rw [← hor]
        simp [chain]
      · have hblank : ' ' ∈ lit "OR" := by
          rw [← hor]
          have : chain " AND " rest = ' ' :: r := hr
          simp [this]
        exact absurd hblank (by decide)
    rw [List.cons_append, conjunction, conjunction, hjoined,
      isPrefixOf?_mark_append hsolid hother]
    cases mark.isPrefixOf? (first ++ chain " AND " rest) <;> simp [lit]

/-! ## A disjunction behind a condition -/

/-- A disjunction of which none or at least two arms say something is nothing or one text
between brackets.  Behind a condition it is an `AND`, so it can only narrow what the
condition selects. -/
theorem disjunction_narrows {arms : List Condition} (h : (said arms).length ≠ 1) :
    ((said arms = [] ∧ disjunctionText arms = []) ∨
      (2 ≤ (said arms).length ∧ (∃ body, disjunctionText arms = Text.bracketed body) ∧
        ((∀ arm ∈ said arms, IsComplete arm) →
          ∃ ps, readPhrases (disjunctionText arms) = some [group ps]))) ∧
    marked (disjunctionText arms) = false ∧
    ∀ c : Condition, c.render ≠ [] → c.parts ≠ [lit "OR"] →
      ((all [c, any arms]).render = c.render ∨
        (2 ≤ (said arms).length ∧
          (all [c, any arms]).render = c.render ++ " AND " ++ disjunctionText arms)) ∧
      (IsComplete c.render → (∀ arm ∈ said arms, IsComplete arm) →
        ∀ holds, Selects holds (all [c, any arms]).render → Selects holds c.render) := by
  have hmarked : marked (disjunctionText arms) = false := by
    rw [Bool.eq_false_iff, ne_eq, marked_disjunctionText_iff]
    exact h
  have hparts : ∀ c,
      (all [c, any arms]).parts = c.parts ++ element (disjunctionText arms).trim := by
    intro c
    simp [parts, partsOfAll, disjunctionText]
  rcases disjunctionText_cases arms with ⟨hsaid, htext⟩ | ⟨arm, hsaid, _⟩ |
    ⟨first, second, rest, hsaid, htext⟩
  · have hsame : ∀ c, (all [c, any arms]).render = c.render := by
      intro c
      rw [render, hparts, htext]
      simp [element, render, Text.trim, Text.trimEnd, Text.trimStart]
    refine ⟨.inl ⟨hsaid, htext⟩, hmarked, fun c _ _ => ⟨.inl (hsame c), ?_⟩⟩
    intro _ _ holds
    rw [hsame]
    exact id
  · rw [hsaid] at h
    exact absurd rfl h
  · have htwo : 2 ≤ (said arms).length := by
      rw [hsaid]
      simp
    have hbody : (∀ arm ∈ said arms, IsComplete arm) →
        ∃ qs, Expression (first ++ chain " OR " (second :: rest)) qs := by
      intro harms
      rw [hsaid, List.forall_mem_cons] at harms
      obtain ⟨ps, hps⟩ := harms.1.exists_expression
      exact expression_chain hps harms.2
    refine ⟨.inr ⟨htwo, ⟨_, htext⟩, ?_⟩, hmarked, ?_⟩
    · intro harms
      obtain ⟨qs, hqs⟩ := hbody harms
      rw [htext]
      exact ⟨qs, hqs.bracketed.1.readPhrases⟩
    · intro c hne hword
      have hrender : (all [c, any arms]).render = c.render ++ " AND " ++ disjunctionText arms := by
        rw [htext] at hparts hmarked ⊢
        rw [render, hparts, trim_bracketed, element_eq_singleton (by simp [Text.bracketed])]
        exact conjunction_concat hne hword hmarked
      refine ⟨.inr ⟨htwo, hrender⟩, ?_⟩
      intro hcomplete harms holds hselects
      obtain ⟨ps, hps⟩ := hcomplete.exists_expression
      obtain ⟨qs, hqs⟩ := hbody harms
      rw [hrender, htext] at hselects
      exact selects_of_and hps hcomplete.1 hqs hselects

/-- Three arms of which the first is blank and the last has a connective in a literal. -/
def threeArms : List Condition :=
  [sql " ", fields [("a", .value (.int 1))], sql "b = 'x OR y'"]

theorem disjunction_narrows_blankArm :
    (all [sql "c = 0", any threeArms]).render = lit "c = 0 AND (a = 1 OR b = 'x OR y')" ∧
    ∀ holds, Selects holds (all [sql "c = 0", any threeArms]).render →
      Selects holds (sql "c = 0").render := by
  have harms : ∀ arm ∈ said threeArms, IsComplete arm := by decide +kernel
  have hcomplete : IsComplete (sql "c = 0").render := by decide +kernel
  obtain ⟨-, -, hbehind⟩ := @disjunction_narrows threeArms (by decide +kernel)
  obtain ⟨-, hnarrows⟩ := hbehind (sql "c = 0") (by decide +kernel) (by decide +kernel)
  exact ⟨by decide +kernel, hnarrows hcomplete harms⟩

/-- An arm that is alone beside a blank one is a bare alternative, and so selects rows that
the condition before it does not.  The bare word `OR` loses its place before two arms. -/
theorem disjunction_widens_oneArm :
    disjunctionText [sql "", sql "b = 2"] = lit "OR b = 2" ∧
    (all [sql "a = 1", any [sql "", sql "b = 2"]]).render = lit "a = 1 OR b = 2" ∧
    Selects (· = lit "b = 2") (all [sql "a = 1", any [sql "", sql "b = 2"]]).render ∧
    ¬Selects (· = lit "b = 2") (sql "a = 1").render ∧
    (all [sql "OR", any [sql "a", sql "b"]]).render = lit "AND (a OR b)" := by
  refine ⟨by decide +kernel, by decide +kernel, ?_, ?_, by decide +kernel⟩
  · refine ⟨[[lit "a = 1"], [lit "b = 2"]], by decide +kernel, [lit "b = 2"], by simp, by simp⟩
  · rintro ⟨blocks, hread, block, hblock, hholds⟩
    have hone : readExpression (sql "a = 1").render = some [[lit "a = 1"]] := by decide +kernel
    rw [hone, Option.some.injEq] at hread
    rw [← hread, List.mem_singleton] at hblock
    rw [hblock] at hholds
    exact absurd (hholds _ (List.mem_singleton.2 rfl)) (by decide)

end Condition

end SqlCompose
