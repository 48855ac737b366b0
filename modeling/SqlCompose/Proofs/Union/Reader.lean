import SqlCompose.Proofs.Algebra.Atoms
import SqlCompose.Proofs.Arity.Expressions

/-!
# Reading unions

A reader of a `UNION` as SQL reads it.  The words `UNION` outside of brackets
and literals cut the text into queries.  A query begins with `SELECT`, or is
one between brackets.  `ORDER` and `LIMIT` are reserved words, so outside of
brackets each begins a clause.  Behind the last query such a clause is about
the rows of all queries, and before a `UNION` it is an error.

There are two groups of lemmas.

* Texts.  `Reads` says which chunks a text is read as, and is closed under
  spaces.
* Unions.  `readUnion_of_reads` says that the parts of a union that is put
  together from queries are these queries.  `readQueries_of_quiet` reads them
  when none of them has a clause at its end, and `quiet_of_readQueries` says
  that no others are read as themselves.
-/

namespace SqlCompose

open Token Phrase Value

/-! ## The reader -/

/-- Whether a chunk begins a clause that orders or limits rows. -/
def Chunk.beginsEnding (ch : Chunk) : Bool := ch.isWord "ORDER" || ch.isWord "LIMIT"

/-- What stands in front of the first clause that orders or limits rows. -/
def beforeEnding (cs : List Chunk) : List Chunk := cs.takeWhile fun ch => !ch.beginsEnding

/-- The first clause that orders or limits rows, with all behind it. -/
def fromEnding (cs : List Chunk) : List Chunk := cs.dropWhile fun ch => !ch.beginsEnding

/-- Chunks as they are written, without outer blanks. -/
def chunkText (cs : List Chunk) : Text := Text.trim (cs.flatMap Chunk.spell)

/-- Whether the first chunk that is no blank is the word `SELECT`. -/
def beginsSelect (cs : List Chunk) : Bool :=
  (cs.dropWhile Chunk.isGap).head?.any (Chunk.isWord "SELECT")

/-- Whether chunks are a query, between brackets or not. -/
def isQuery (cs : List Chunk) : Bool :=
  beginsSelect cs ||
    match dropEnds Chunk.isGap cs with
    | [.other (.group inside)] => beginsSelect (chunks inside)
    | _ => false

/-- A union as it is read: its queries, and the clauses about the rows of all of them. -/
structure UnionText where
  queries : List Text
  ending : Text
  deriving DecidableEq

/-- What stands behind a `UNION`, without `ALL`. -/
def withoutAll (cs : List Chunk) : List Chunk :=
  match cs.dropWhile Chunk.isGap with
  | ch :: rest => if ch.isWord "ALL" then rest.dropWhile Chunk.isGap else ch :: rest
  | [] => []

/-- Reads what stands between the words `UNION`. -/
def readQueries : List (List Chunk) → Option UnionText
  | [] => none
  | [last] =>
    if isQuery (beforeEnding last) then
      some ⟨[chunkText (beforeEnding last)], chunkText (fromEnding last)⟩
    else none
  | query :: rest =>
    if isQuery query && !query.any Chunk.beginsEnding then
      (readQueries rest).map fun r => { r with queries := chunkText query :: r.queries }
    else none

/-- A union as SQL reads it; nothing if it is not well-formed. -/
def readUnion (t : Text) : Option UnionText :=
  (readPhrases t).bind fun ps =>
    match (chunks ps).splitOnP (Chunk.isWord "UNION") with
    | first :: rest => readQueries (first :: rest.map withoutAll)
    | [] => none

example : readUnion (lit "(SELECT a FROM t LIMIT 1) union all SELECT 'UNION' FROM u ORDER BY a") =
    some ⟨[lit "(SELECT a FROM t LIMIT 1)", lit "SELECT 'UNION' FROM u"], lit "ORDER BY a"⟩ := by
  decide +kernel

theorem readQueries_cons (query : List Chunk) {rest : List (List Chunk)} (h : rest ≠ []) :
    readQueries (query :: rest) =
      if isQuery query && !query.any Chunk.beginsEnding then
        (readQueries rest).map fun r => { r with queries := chunkText query :: r.queries }
      else none := by
  rw [readQueries]
  exact h

theorem queries_ne_nil_of_readQueries {parts : List (List Chunk)} {r : UnionText}
    (h : readQueries parts = some r) : r.queries ≠ [] := by
  unfold readQueries at h
  split at h
  · simp at h
  · split at h
    · obtain rfl := Option.some.inj h
      simp
    · simp at h
  · split at h
    · obtain ⟨later, -, rfl⟩ := Option.map_eq_some_iff.1 h
      simp
    · simp at h

/-- A union that is read has queries. -/
theorem queries_ne_nil {t : Text} {r : UnionText} (h : readUnion t = some r) : r.queries ≠ [] := by
  obtain ⟨ps, -, hparts⟩ := Option.bind_eq_some_iff.1 h
  split at hparts
  · exact queries_ne_nil_of_readQueries hparts
  · simp at hparts

/-! ## What a text is read as -/

/-- The chunks of a text with complete literals and brackets. -/
def Reads (t : Text) (cs : List Chunk) : Prop := ∃ ps, Written t ps ∧ chunks ps = cs

namespace Reads

variable {t u : Text} {cs ds : List Chunk}

theorem spell (h : Reads t cs) : cs.flatMap Chunk.spell = t := by
  obtain ⟨ps, hwritten, rfl⟩ := h
  rw [flatMap_spell_chunks, hwritten.spelled]

theorem spaced (ht : Reads t cs) (hu : Reads u ds) :
    Reads (t ++ ' ' :: u) (cs ++ .other space :: ds) := by
  obtain ⟨ps, hps, rfl⟩ := ht
  obtain ⟨qs, hqs, rfl⟩ := hu
  exact ⟨ps ++ space :: qs, hps.append_separator (.inr rfl) hqs,
    chunks_append_other wordChar?_space ps qs⟩

/-- A word in front of a text. -/
theorem worded {w : Text} (hw : IsName w) (hu : Reads u ds) :
    Reads (w ++ ' ' :: u) (.word w :: .other space :: ds) := by
  have hname := fragment_name hw
  have hword : Reads w [.word w] :=
    ⟨codePhrases w, ⟨hname.spelled, hname.fits, hname.proper⟩, chunks_word hw.1 hw.2.1⟩
  exact hword.spaced hu

end Reads

/-! ## Queries put together -/

/-- What stands between the words `UNION` and a query. -/
def behindUnion (duplicates : Bool) : List Chunk :=
  .other space :: if duplicates then [.word "ALL", .other space] else []

/-- What stands between two queries. -/
def unionChunks (duplicates : Bool) : List Chunk :=
  .other space :: .word "UNION" :: behindUnion duplicates

/-- What stands between two queries, as it is written. -/
def unionText (duplicates : Bool) : Text := if duplicates then " UNION ALL " else " UNION "

theorem reads_joinWith (duplicates : Bool) {sqls : List Text} {css : List (List Chunk)}
    (h : List.Forall₂ Reads sqls css) (hne : sqls ≠ []) :
    Reads (Text.joinWith (unionText duplicates) sqls)
      ((unionChunks duplicates).intercalate css) := by
  have hunion : IsName (lit "UNION") := by decide
  have hall : IsName (lit "ALL") := by decide
  induction h with
  | nil => exact absurd rfl hne
  | @cons sql cs sqls css hfirst hrest ih =>
    cases hrest with
    | nil => simpa using hfirst
    | @cons next ds sqls css hnext hrest =>
      have hbehind := ih (by simp)
      rw [Text.joinWith, List.intercalate_cons_cons, List.intercalate_cons_cons]
      cases duplicates with
      | false =>
        simpa [unionText, unionChunks, behindUnion, lit] using
          hfirst.spaced (hbehind.worded hunion)
      | true =>
        simpa [unionText, unionChunks, behindUnion, lit] using
          hfirst.spaced ((hbehind.worded hall).worded hunion)

/-- The chunks of a query that is written without brackets. -/
structure IsSelect (cs : List Chunk) : Prop where
  begins : ∃ rest, cs = .word "SELECT" :: rest
  noUnion : ∀ ch ∈ cs, ch.isWord "UNION" = false

/-- The parts of a union: each query with the space behind it, and the last one with what
follows. -/
def unionParts (ending : List Chunk) : List (List Chunk) → List (List Chunk)
  | [] => []
  | [last] => [last ++ ending]
  | cs :: rest => (cs ++ [.other space]) :: unionParts ending rest

/-- Texts are spelled by their chunks. -/
theorem eq_map_of_reads {sqls : List Text} {css : List (List Chunk)}
    (h : List.Forall₂ Reads sqls css) : sqls = css.map fun cs => cs.flatMap Chunk.spell := by
  induction h with
  | nil => rfl
  | cons hfirst _ ih => rw [List.map_cons, hfirst.spell, ← ih]

variable {ending : List Chunk} {css : List (List Chunk)}

theorem IsSelect.spell_ne_nil {cs : List Chunk} (h : IsSelect cs) :
    cs.flatMap Chunk.spell ≠ [] := by
  obtain ⟨rest, rfl⟩ := h.begins
  simp [Chunk.spell, Chunk.phrases, lit]

theorem withoutAll_behindUnion (duplicates : Bool) (rest : List Chunk) :
    withoutAll (behindUnion duplicates ++ .word "SELECT" :: rest) = .word "SELECT" :: rest := by
  cases duplicates <;> rfl

/-- Queries with a `UNION` between are split at it, whatever stands in front of them. -/
theorem splitOnP_unionChunks (duplicates : Bool) (hcss : ∀ cs ∈ css, IsSelect cs)
    (hending : ∀ ch ∈ ending, ch.isWord "UNION" = false) (hne : css ≠ []) {front : List Chunk}
    (hfront : ∀ ch ∈ front, ch.isWord "UNION" = false) :
    ∃ first rest later, unionParts ending css = (.word "SELECT" :: first) :: rest ∧
      (front ++ (unionChunks duplicates).intercalate css ++ ending).splitOnP
        (Chunk.isWord "UNION") = (front ++ .word "SELECT" :: first) :: later ∧
      later.map withoutAll = rest := by
  induction css generalizing front with
  | nil => exact absurd rfl hne
  | cons cs css ih =>
    obtain ⟨⟨first, rfl⟩, hquery⟩ := hcss cs (by simp)
    cases css with
    | nil =>
      refine ⟨first ++ ending, [], [], rfl, ?_, rfl⟩
      rw [List.intercalate_singleton, List.splitOnP_eq_singleton]
      · simp
      · simp only [List.forall_mem_append]
        exact ⟨⟨hfront, hquery⟩, hending⟩
    | cons next css =>
      have hbehind : ∀ ch ∈ behindUnion duplicates, ch.isWord "UNION" = false := by
        cases duplicates <;> decide
      obtain ⟨first', rest, later, hparts, hsplit, hlater⟩ :=
        ih (fun ds hds => hcss ds (by simp [hds])) (by simp) hbehind
      refine ⟨first ++ [.other space], (.word "SELECT" :: first') :: rest,
        (behindUnion duplicates ++ .word "SELECT" :: first') :: later, ?_, ?_, ?_⟩
      · rw [unionParts, hparts]
        · rfl
        · simp
      · have hcut : front ++ (unionChunks duplicates).intercalate
              ((.word "SELECT" :: first) :: next :: css) ++ ending =
            (front ++ .word "SELECT" :: (first ++ [.other space])) ++ .word "UNION" ::
              (behindUnion duplicates ++ (unionChunks duplicates).intercalate (next :: css) ++
                ending) := by
          rw [List.intercalate_cons_cons]
          simp [unionChunks]
        have hword : (Chunk.word "UNION").isWord "UNION" = true := by decide
        have hnone : ∀ ch ∈ front ++ .word "SELECT" :: (first ++ [.other space]),
            ch.isWord "UNION" = false := by
          simp only [← List.cons_append, List.forall_mem_append, List.forall_mem_singleton]
          exact ⟨hfront, hquery, rfl⟩
        rw [hcut, List.splitOnP_append_cons _ _ hword, hsplit, List.splitOnP_eq_singleton hnone]
        rfl
      · rw [List.map_cons, withoutAll_behindUnion, hlater]

/-- The parts of a union are its queries. -/
theorem readUnion_of_reads {t : Text} {duplicates : Bool} (hcss : ∀ cs ∈ css, IsSelect cs)
    (hending : ∀ ch ∈ ending, ch.isWord "UNION" = false) (hne : css ≠ [])
    (h : Reads t ((unionChunks duplicates).intercalate css ++ ending)) :
    readUnion t = readQueries (unionParts ending css) := by
  obtain ⟨ps, hwritten, hchunks⟩ := h
  have hfront : ∀ ch ∈ ([] : List Chunk), ch.isWord "UNION" = false := by simp
  obtain ⟨first, rest, later, hparts, hsplit, hlater⟩ :=
    splitOnP_unionChunks duplicates hcss hending hne hfront
  rw [List.nil_append, List.nil_append] at hsplit
  rw [readUnion, hwritten.readPhrases, Option.bind_some, hchunks, hsplit, hparts]
  dsimp only
  rw [hlater]

/-! ## Endings -/

/-- Chunks without a clause that orders or limits rows. -/
def Quiet (cs : List Chunk) : Prop := ∀ ch ∈ cs, ch.beginsEnding = false

theorem quiet_space : Quiet [.other space] := by
  intro ch hch
  rw [List.mem_singleton.1 hch]
  rfl

/-- What stands behind the last query: nothing, or a space and a clause. -/
def IsEnding (ending : List Chunk) : Prop :=
  ending = [] ∨ ∃ ch rest, ending = .other space :: ch :: rest ∧ ch.beginsEnding = true

theorem isGap_space : (Chunk.other space).isGap = true := rfl

theorem chunkText_cons_space (cs : List Chunk) :
    chunkText (.other space :: cs) = chunkText cs := by
  obtain ⟨c, hc, hspell⟩ := Chunk.spell_of_isGap isGap_space
  rw [chunkText, List.flatMap_cons, hspell]
  exact dropEnds_cons hc _

theorem chunkText_concat_space (cs : List Chunk) :
    chunkText (cs ++ [.other space]) = chunkText cs := by
  obtain ⟨c, hc, hspell⟩ := Chunk.spell_of_isGap isGap_space
  rw [chunkText, List.flatMap_append, List.flatMap_singleton, hspell]
  exact trim_concat hc _

theorem IsSelect.isQuery {cs : List Chunk} (h : IsSelect cs) (more : List Chunk) :
    isQuery (cs ++ more) = true := by
  obtain ⟨rest, rfl⟩ := h.begins
  rfl

theorem unionParts_ne_nil (hne : css ≠ []) : unionParts ending css ≠ [] := by
  unfold unionParts
  split
  · exact hne
  · simp
  · simp

theorem unionParts_cons (cs : List Chunk) (hne : css ≠ []) :
    unionParts ending (cs :: css) = (cs ++ [.other space]) :: unionParts ending css := by
  rw [unionParts]
  exact hne

theorem Quiet.cut {cs : List Chunk} (h : Quiet cs) (more : List Chunk) :
    beforeEnding (cs ++ more) = cs ++ beforeEnding more ∧
      fromEnding (cs ++ more) = fromEnding more := by
  have hcs : ∀ ch ∈ cs, (!ch.beginsEnding) = true := fun ch hch => by simp [h ch hch]
  exact ⟨List.takeWhile_append_of_pos hcs, List.dropWhile_append_of_pos hcs⟩

theorem cut_cons {ch : Chunk} (h : ch.beginsEnding = true) (rest : List Chunk) :
    beforeEnding (ch :: rest) = [] ∧ fromEnding (ch :: rest) = ch :: rest :=
  ⟨List.takeWhile_cons_of_neg (by simp [h]), List.dropWhile_cons_of_neg (by simp [h])⟩

/-- An ending is cut off but for its space. -/
theorem IsEnding.cut (h : IsEnding ending) :
    (beforeEnding ending = [] ∨ beforeEnding ending = [.other space]) ∧
      chunkText (fromEnding ending) = chunkText ending := by
  rcases h with rfl | ⟨ch, rest, rfl, hch⟩
  · exact ⟨.inl rfl, rfl⟩
  · obtain ⟨hbefore, hfrom⟩ := cut_cons hch rest
    obtain ⟨hbefore', hfrom'⟩ := quiet_space.cut (ch :: rest)
    rw [hbefore] at hbefore'
    rw [hfrom] at hfrom'
    refine ⟨.inr hbefore', ?_⟩
    change fromEnding (.other space :: ch :: rest) = _ at hfrom'
    rw [hfrom', chunkText_cons_space]

/-- Chunks that are not quiet are cut before their first clause. -/
theorem exists_of_not_quiet {cs : List Chunk} (h : ¬Quiet cs) :
    ∃ front ch rest, cs = front ++ ch :: rest ∧ Quiet front ∧ ch.beginsEnding = true := by
  induction cs with
  | nil => exact absurd (by simp [Quiet]) h
  | cons ch cs ih =>
    cases hch : ch.beginsEnding with
    | true => exact ⟨[], ch, cs, rfl, by simp [Quiet], hch⟩
    | false =>
      have hrest : ¬Quiet cs := fun hquiet => h (List.forall_mem_cons.2 ⟨hch, hquiet⟩)
      obtain ⟨front, next, rest, rfl, hfront, hnext⟩ := ih hrest
      exact ⟨ch :: front, next, rest, rfl, List.forall_mem_cons.2 ⟨hch, hfront⟩, hnext⟩

/-- Queries without clauses at their ends are read as they are written. -/
theorem readQueries_of_quiet (hcss : ∀ cs ∈ css, IsSelect cs) (hending : IsEnding ending)
    (hne : css ≠ []) (hquiet : ∀ cs ∈ css, Quiet cs) :
    readQueries (unionParts ending css) = some ⟨css.map chunkText, chunkText ending⟩ := by
  induction css with
  | nil => exact absurd rfl hne
  | cons cs css ih =>
    have hselect := hcss cs (by simp)
    have hfirst := hquiet cs (by simp)
    by_cases hrest : css = []
    · subst hrest
      obtain ⟨hbefore, hfrom⟩ := hfirst.cut ending
      obtain ⟨hspace, hbehind⟩ := hending.cut
      have hquery : chunkText (cs ++ beforeEnding ending) = chunkText cs := by
        rcases hspace with hspace | hspace
        · rw [hspace, List.append_nil]
        · rw [hspace, chunkText_concat_space]
      rw [unionParts, readQueries, hbefore, hfrom, hselect.isQuery, if_pos rfl, hquery, hbehind,
        List.map_singleton]
    · have hlater := ih (fun ds hds => hcss ds (by simp [hds])) hrest
        fun ds hds => hquiet ds (by simp [hds])
      have hnone : (cs ++ [Chunk.other space]).any Chunk.beginsEnding = false := by
        simpa using ⟨hfirst, quiet_space _ (by simp)⟩
      rw [unionParts_cons cs hrest, readQueries_cons _ (unionParts_ne_nil hrest),
        hselect.isQuery, hnone, hlater]
      simp [chunkText_concat_space]

/-- A clause that orders or limits rows does not begin with a blank. -/
theorem exists_spell_of_beginsEnding {ch : Chunk} (h : ch.beginsEnding = true) :
    ∃ c rest, ch.spell = c :: rest ∧ isBlank c = false := by
  cases ch with
  | other p => simp [Chunk.beginsEnding, Chunk.isWord] at h
  | word w =>
    have hupper : w.upper = lit "ORDER" ∨ w.upper = lit "LIMIT" := by
      simpa [Chunk.beginsEnding, Chunk.isWord] using h
    cases w with
    | nil => simp [Text.upper, lit] at hupper
    | cons c rest =>
      refine ⟨c, rest, by simp [Chunk.spell, Chunk.phrases], isBlank_of_isAlpha ?_⟩
      rw [← Char.isAlpha_toUpper_eq_isAlpha]
      rcases hupper with hupper | hupper
      · rw [show c.toUpper = 'O' from (List.cons.inj hupper).1]
        rfl
      · rw [show c.toUpper = 'L' from (List.cons.inj hupper).1]
        rfl

/-- A query is longer than what stands in front of a clause in it. -/
theorem length_chunkText_lt {ch : Chunk} (h : ch.beginsEnding = true) (cs rest : List Chunk) :
    (chunkText cs).length < (chunkText (cs ++ ch :: rest)).length ∧
      (chunkText cs).length < ((cs ++ ch :: rest).flatMap Chunk.spell).length := by
  obtain ⟨c, more, hspell, hc⟩ := exists_spell_of_beginsEnding h
  have hwhole : (cs ++ ch :: rest).flatMap Chunk.spell =
      cs.flatMap Chunk.spell ++ c :: (more ++ rest.flatMap Chunk.spell) := by
    rw [List.flatMap_append, List.flatMap_cons, hspell, List.cons_append]
  have htrim : chunkText (cs ++ ch :: rest) =
      (cs.flatMap Chunk.spell).dropWhile isBlank ++
        c :: ((more ++ rest.flatMap Chunk.spell).reverse.dropWhile isBlank).reverse := by
    rw [chunkText, hwhole]
    exact dropEnds_append_cons hc _ _
  have hfront : (chunkText cs).length ≤ ((cs.flatMap Chunk.spell).dropWhile isBlank).length := by
    have hend := (List.dropWhile_sublist (l := ((cs.flatMap Chunk.spell).dropWhile isBlank).reverse)
      isBlank).length_le
    simpa [chunkText, Text.trim, Text.trimStart, Text.trimEnd] using hend
  have hstart := (List.dropWhile_sublist (l := cs.flatMap Chunk.spell) isBlank).length_le
  refine ⟨?_, ?_⟩
  · rw [htrim, List.length_append, List.length_cons]
    omega
  · rw [hwhole, List.length_append, List.length_cons]
    omega

/-- The ways of writing a query as a part of a union: as it is, or between brackets. -/
def IsQueryText (query sql : Text) : Prop := query = sql.trim ∨ query = Text.bracketed sql

/-- Queries that are read as they are written have no clauses at their ends. -/
theorem quiet_of_readQueries {r : UnionText} (h : readQueries (unionParts ending css) = some r)
    (hqueries : List.Forall₂ IsQueryText r.queries (css.map fun cs => cs.flatMap Chunk.spell)) :
    ∀ cs ∈ css, Quiet cs := by
  induction css generalizing r with
  | nil => simp
  | cons cs css ih =>
    by_cases hrest : css = []
    · subst hrest
      rw [unionParts, readQueries] at h
      split at h
      · obtain rfl := Option.some.inj h
        obtain ⟨hquery, -⟩ := List.forall₂_cons.1 hqueries
        simp only [List.mem_singleton, forall_eq]
        by_contra hquiet
        obtain ⟨front, ch, rest, rfl, hfront, hch⟩ := exists_of_not_quiet hquiet
        -- What is read ends before the clause, so it is shorter than the query.
        have hread : beforeEnding (front ++ ch :: rest ++ ending) = front := by
          rw [List.append_assoc, (hfront.cut _).1, List.cons_append, (cut_cons hch _).1,
            List.append_nil]
        obtain ⟨htrimmed, hwhole⟩ := length_chunkText_lt hch front rest
        rw [hread] at hquery
        rcases hquery with hquery | hquery
        · rw [hquery] at htrimmed
          exact absurd htrimmed (lt_irrefl _)
        · have hlength := congrArg List.length hquery
          simp only [Text.bracketed, List.length_cons, List.length_append] at hlength hwhole
          omega
      · simp at h
    · rw [unionParts_cons cs hrest, readQueries_cons _ (unionParts_ne_nil hrest)] at h
      split at h
      · rename_i hnone
        obtain ⟨later, hlater, rfl⟩ := Option.map_eq_some_iff.1 h
        obtain ⟨-, hqueries⟩ := List.forall₂_cons.1 hqueries
        have hfirst : Quiet cs := by
          intro ch hch
          simp only [Bool.and_eq_true, Bool.not_eq_true', List.any_eq_false] at hnone
          simpa using hnone.2 ch (by simp [hch])
        simp only [List.forall_mem_cons]
        exact ⟨hfirst, ih hlater hqueries⟩
      · simp at h

end SqlCompose
