import SqlCompose.Proofs.Reading.Token

/-!
# Brackets

The tokens of a text with its round brackets matched.  A bracket inside of
quotes is no token of its own, so it opens and closes nothing.

`nest` matches the brackets, and `nest_eq_some_iff` says that the phrases of
tokens are the proper ones that have these tokens.
-/

namespace SqlCompose

/-- A token, or what stands between two brackets. -/
inductive Phrase where
  | leaf (t : Token)
  | group (inside : List Phrase)

namespace Phrase

mutual

/-- The tokens of a phrase, brackets included. -/
def tokens : Phrase → List Token
  | leaf t => [t]
  | group inside => .code '(' :: tokensOfAll inside ++ [.code ')']

/-- The tokens of several phrases, in order. -/
def tokensOfAll : List Phrase → List Token
  | [] => []
  | t :: rest => tokens t ++ tokensOfAll rest

end

@[simp] theorem tokensOfAll_append (ts us : List Phrase) :
    tokensOfAll (ts ++ us) = tokensOfAll ts ++ tokensOfAll us := by
  induction ts with
  | nil => rfl
  | cons t ts ih => simp [tokensOfAll, ih]

/-- Tokens as leaves. -/
def leaves (ts : List Token) : List Phrase := ts.map leaf

@[simp] theorem tokensOfAll_leaves (ts : List Token) : tokensOfAll (leaves ts) = ts := by
  induction ts with
  | nil => rfl
  | cons t ts ih => simpa [leaves, tokensOfAll, tokens] using ih

/-- No leaf is a bracket. -/
inductive Proper : Phrase → Prop
  | leaf {t : Token} (ho : t ≠ .code '(') (hc : t ≠ .code ')') : Proper (leaf t)
  | group {inside : List Phrase} (h : ∀ t ∈ inside, Proper t) : Proper (group inside)

/-- Matches brackets, where `outer` holds what stands before each bracket that is open
and `before` what stands behind the last of them. -/
def nestFrom (outer : List (List Phrase)) (before : List Phrase) : List Token → Option (List Phrase)
  | [] => if outer.isEmpty then some before else none
  | t :: rest =>
    if t = .code '(' then nestFrom (before :: outer) [] rest
    else if t = .code ')' then
      match outer with
      | [] => none
      | ahead :: outer => nestFrom outer (ahead ++ [group before]) rest
    else nestFrom outer (before ++ [leaf t]) rest

theorem nestFrom_open (outer : List (List Phrase)) (before : List Phrase) (rest : List Token) :
    nestFrom outer before (.code '(' :: rest) = nestFrom (before :: outer) [] rest := by
  rw [nestFrom.eq_def]
  simp

theorem nestFrom_close (ahead before : List Phrase) (outer : List (List Phrase))
    (rest : List Token) :
    nestFrom (ahead :: outer) before (.code ')' :: rest) =
      nestFrom outer (ahead ++ [group before]) rest := by
  rw [nestFrom.eq_def]
  simp

theorem nestFrom_leaf {t : Token} (ho : t ≠ .code '(') (hc : t ≠ .code ')')
    (outer : List (List Phrase)) (before : List Phrase) (rest : List Token) :
    nestFrom outer before (t :: rest) = nestFrom outer (before ++ [leaf t]) rest := by
  rw [nestFrom.eq_def]
  simp [ho, hc]

/-- The phrases of tokens; nothing if a bracket has no partner. -/
def nest (ts : List Token) : Option (List Phrase) := nestFrom [] [] ts

mutual

theorem nestFrom_phrase : ∀ (t : Phrase), t.Proper → ∀ (outer : List (List Phrase))
    (before : List Phrase) (rest : List Token),
    nestFrom outer before (t.tokens ++ rest) = nestFrom outer (before ++ [t]) rest
  | leaf t, .leaf ho hc, outer, before, rest => by
    rw [tokens, List.singleton_append, nestFrom_leaf ho hc]
  | group inside, .group h, outer, before, rest => by
    rw [tokens, List.cons_append, List.cons_append, nestFrom_open, List.append_assoc,
      nestFrom_phrases inside h, List.nil_append, List.singleton_append, nestFrom_close]

/-- Proper phrases are built up from their tokens, whatever is open around them. -/
theorem nestFrom_phrases : ∀ (ts : List Phrase), (∀ t ∈ ts, t.Proper) →
    ∀ (outer : List (List Phrase)) (before : List Phrase) (rest : List Token),
    nestFrom outer before (tokensOfAll ts ++ rest) = nestFrom outer (before ++ ts) rest
  | [], _, outer, before, rest => by simp [tokensOfAll]
  | t :: ts, h, outer, before, rest => by
    rw [tokensOfAll, List.append_assoc, nestFrom_phrase t (h t (by simp)),
      nestFrom_phrases ts (fun u hu => h u (by simp [hu]))]
    simp

end

/-- The tokens of what has been read, with the brackets that are open. -/
def tokensSoFar : List (List Phrase) → List Phrase → List Token
  | [], before => tokensOfAll before
  | ahead :: outer, before => tokensSoFar outer ahead ++ .code '(' :: tokensOfAll before

theorem tokensSoFar_append (outer : List (List Phrase)) (before ts : List Phrase) :
    tokensSoFar outer (before ++ ts) = tokensSoFar outer before ++ tokensOfAll ts := by
  cases outer <;> simp [tokensSoFar]

/-- Matching brackets loses no token and leaves no bracket unmatched. -/
theorem tokens_of_nestFrom {outer : List (List Phrase)} {before ts : List Phrase} {us : List Token}
    (houter : ∀ level ∈ outer, ∀ t ∈ level, t.Proper) (hbefore : ∀ t ∈ before, t.Proper)
    (h : nestFrom outer before us = some ts) :
    tokensOfAll ts = tokensSoFar outer before ++ us ∧ ∀ t ∈ ts, t.Proper := by
  induction us generalizing outer before with
  | nil =>
    rw [nestFrom] at h
    split_ifs at h with hempty
    obtain rfl : outer = [] := List.isEmpty_iff.1 hempty
    obtain rfl : before = ts := by simpa using h
    exact ⟨by simp [tokensSoFar], hbefore⟩
  | cons u rest ih =>
    by_cases hopen : u = .code '('
    · subst hopen
      rw [nestFrom_open] at h
      have hall : ∀ level ∈ before :: outer, ∀ t ∈ level, t.Proper := by
        simpa using ⟨hbefore, houter⟩
      obtain ⟨htokens, hproper⟩ := ih hall (by simp) h
      exact ⟨by simpa [tokensSoFar, tokensOfAll] using htokens, hproper⟩
    by_cases hclose : u = .code ')'
    · subst hclose
      cases outer with
      | nil => simp [nestFrom.eq_def] at h
      | cons ahead outer =>
        rw [nestFrom_close] at h
        have hahead : ∀ t ∈ ahead ++ [group before], t.Proper := by
          intro t ht
          rcases List.mem_append.1 ht with ht | ht
          · exact houter ahead (by simp) t ht
          · rw [List.mem_singleton.1 ht]
            exact .group hbefore
        obtain ⟨htokens, hproper⟩ := ih (fun level hl => houter level (by simp [hl])) hahead h
        refine ⟨?_, hproper⟩
        rw [htokens, tokensSoFar_append]
        simp [tokensSoFar, tokensOfAll, tokens]
    · rw [nestFrom_leaf hopen hclose] at h
      have hbefore' : ∀ t ∈ before ++ [leaf u], t.Proper := by
        intro t ht
        rcases List.mem_append.1 ht with ht | ht
        · exact hbefore t ht
        · rw [List.mem_singleton.1 ht]
          exact .leaf hopen hclose
      obtain ⟨htokens, hproper⟩ := ih houter hbefore' h
      refine ⟨?_, hproper⟩
      rw [htokens, tokensSoFar_append]
      simp [tokensOfAll, tokens]

/-- The phrases of tokens are the proper ones that have these tokens. -/
theorem nest_eq_some_iff {us : List Token} {ts : List Phrase} :
    nest us = some ts ↔ tokensOfAll ts = us ∧ ∀ t ∈ ts, t.Proper := by
  constructor
  · intro h
    exact tokens_of_nestFrom (by simp) (by simp) h
  · rintro ⟨rfl, h⟩
    have := nestFrom_phrases ts h [] [] []
    simpa [nest, nestFrom] using this

end Phrase

end SqlCompose
