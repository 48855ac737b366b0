import SqlCompose.Proofs.Reading.Edge
import SqlCompose.Proofs.Reading.Operand

/-!
# Lists of operands are read back

A reader of what stands in an `IN (...)`, with `standard_conforming_strings`
on.  It cuts the text at the commas outside of literals and brackets; what
stands between brackets is a list, a literal is text, a literal with
`::bytea` behind it is bytes, and a word is a number, a truth value or
`NULL`.

The main result is that the reader undoes `Value.quote` on lists of any
depth, up to the NUL characters that no literal can hold.  Scalars come
first (`readsMember_scalar`), then a list from its members
(`readItems_intercalate`); the induction over lists inside of lists ties both
together (`readItems_list`).
-/

namespace SqlCompose

open Token Phrase

namespace Value

/-! ## The reader -/

/-- A part of a list: a token, or a list between brackets. -/
inductive Piece where
  | token (t : Token)
  | sublist (items : List Value)

namespace Piece

/-- Whether a piece is a blank. -/
def isBlank : Piece → Bool
  | token t => t.isBlankCode
  | sublist _ => false

/-- Whether a piece is the comma between two members. -/
def isComma : Piece → Bool
  | token t => t == .code ','
  | sublist _ => false

end Piece

/-- Pairs of hexadecimal digits, each a byte. -/
def readHexPairs : Text → Option (List UInt8)
  | [] => some []
  | high :: low :: rest => do
    let h ← Text.hexDigit? high
    let l ← Text.hexDigit? low
    return UInt8.ofNat (16 * h + l) :: (← readHexPairs rest)
  | [_] => none

/-- The bytes that a literal of their type denotes. -/
def readBytes : Text → Option Value
  | '\\' :: 'x' :: digits => (readHexPairs digits).map bytes
  | _ => none

/-- The operand of an integer, if it is a signed 64-bit one. -/
def ofInt? (n : Int) : Option Value :=
  if Int64.minValue.toInt ≤ n ∧ n ≤ Int64.maxValue.toInt then some (int (Int64.ofInt n)) else none

/-- The integer that digits denote, if there are digits and nothing else. -/
def readDigits (digits : Text) : Option Int :=
  if digits ≠ [] ∧ digits.all Char.isDigit then some (Text.decimal digits) else none

/-- The operand of a number with or without a minus sign. -/
def readNumber : Text → Option Value
  | '-' :: digits => (readDigits digits).bind fun n => ofInt? (-n)
  | digits => (readDigits digits).bind ofInt?

/-- The operand that a word denotes. -/
def readWord (word : Text) : Option Value :=
  if word = lit "NULL" then some null
  else if word = lit "true" then some (bool true)
  else if word = lit "false" then some (bool false)
  else readNumber word

/-- The characters of pieces, if all of them are code. -/
def codeOf? : List Piece → Option Text
  | [] => some []
  | .token (.code c) :: rest => (codeOf? rest).map (c :: ·)
  | _ => none

/-- The operand that the pieces between two commas denote. -/
def readItem : List Piece → Option Value
  | [.sublist items] => some (list items)
  | .token (.quoted form body) :: rest =>
    match codeOf? rest with
    | some [] => (Token.quoted form body).content.map text
    | some suffix =>
      if suffix = lit "::bytea" then (Token.quoted form body).content.bind readBytes else none
    | none => none
  | pieces => (codeOf? pieces).bind readWord

/-- The operands of a list. -/
def readItems (pieces : List Piece) : Option (List Value) :=
  if pieces.all Piece.isBlank then some []
  else (pieces.splitOnP Piece.isComma).mapM fun part => readItem (dropEnds Piece.isBlank part)

mutual

/-- A phrase as a piece of a list. -/
def piece? : Phrase → Option Piece
  | leaf t => some (.token t)
  | group inside => ((pieces? inside).bind readItems).map .sublist

/-- Phrases as pieces of a list. -/
def pieces? : List Phrase → Option (List Piece)
  | [] => some []
  | p :: rest => do
    let piece ← piece? p
    return piece :: (← pieces? rest)

end

/-- The list of operands that a text denotes. -/
def readList (t : Text) : Option (List Value) := do
  let tokens ← Token.scan t
  let phrases ← Phrase.nest tokens
  let pieces ← pieces? phrases
  readItems pieces

/-! ## What can be read back -/

mutual

/-- An operand with the text of it that a literal can hold. -/
def withoutNul : Value → Value
  | text t => text t.withoutNul
  | list items => list (withoutNulItems items)
  | v => v

/-- Operands with the text of them that a literal can hold. -/
def withoutNulItems : List Value → List Value
  | [] => []
  | item :: rest => withoutNul item :: withoutNulItems rest

end

mutual

/-- Whether an operand is null, a truth value, an integer, text, bytes, or a list of such
operands. -/
def listable : Value → Bool
  | null | bool _ | int _ | text _ | bytes _ => true
  | list items => listableItems items
  | float _ | date _ | timestamp _ | timestampUtc _ | raw _ => false

/-- Whether all of several operands are such. -/
def listableItems : List Value → Bool
  | [] => true
  | item :: rest => listable item && listableItems rest

end

mutual

/-- What can be read back has no raw SQL in it. -/
theorem rawFree_of_listable : ∀ v : Value, v.listable = true → v.RawFree
  | null, _ => rfl
  | bool _, _ => rfl
  | int _, _ => rfl
  | text _, _ => rfl
  | bytes _, _ => rfl
  | list items, h => rawFree_list_iff.2 (rawFree_of_listableItems items h)
  | float _, h => by simp [listable] at h
  | date _, h => by simp [listable] at h
  | timestamp _, h => by simp [listable] at h
  | timestampUtc _, h => by simp [listable] at h
  | raw _, h => by simp [listable] at h

theorem rawFree_of_listableItems : ∀ items : List Value, listableItems items = true →
    ∀ item ∈ items, item.RawFree
  | [], _, item, hmem => by simp at hmem
  | item :: rest, h, item', hmem => by
    rw [listableItems, Bool.and_eq_true] at h
    rcases List.mem_cons.1 hmem with heq | hmem
    · rw [heq]
      exact rawFree_of_listable item h.1
    · exact rawFree_of_listableItems rest h.2 item' hmem

end

/-! ## Pieces -/

theorem pieces?_append {ps qs : List Phrase} {as bs : List Piece} (hp : pieces? ps = some as)
    (hq : pieces? qs = some bs) : pieces? (ps ++ qs) = some (as ++ bs) := by
  induction ps generalizing as with
  | nil =>
    obtain rfl : [] = as := by simpa [pieces?] using hp
    exact hq
  | cons p ps ih =>
    simp only [pieces?, Option.bind_eq_bind, Option.bind_eq_some_iff, Option.pure_def,
      Option.some.injEq] at hp
    obtain ⟨a, ha, as', has, rfl⟩ := hp
    simp [pieces?, ha, ih has]

theorem pieces?_leaves (ts : List Token) : pieces? (leaves ts) = some (ts.map .token) := by
  induction ts with
  | nil => rfl
  | cons t ts ih =>
    rw [leaves] at ih
    simp [leaves, pieces?, piece?, ih]

/-- What is between two members. -/
def separator : List Piece := [.token (.code ','), .token (.code ' ')]

theorem pieces?_intercalate {pss : List (List Phrase)} {parts : List (List Piece)}
    (h : pss.mapM pieces? = some parts) :
    pieces? ((codePhrases ", ").intercalate pss) = some (separator.intercalate parts) := by
  have hseparator : pieces? (codePhrases ", ") = some separator := pieces?_leaves _
  induction pss generalizing parts with
  | nil =>
    obtain rfl : [] = parts := by simpa using h
    rfl
  | cons ps rest ih =>
    simp only [List.mapM_cons, Option.bind_eq_bind, Option.bind_eq_some_iff, Option.pure_def,
      Option.some.injEq] at h
    obtain ⟨part, hpart, parts', hparts, rfl⟩ := h
    cases rest with
    | nil =>
      obtain rfl : [] = parts' := by simpa using hparts
      simpa using hpart
    | cons next rest =>
      have hrest := ih hparts
      cases parts' with
      | nil => simp [Option.bind_eq_some_iff] at hparts
      | cons part' parts' =>
        rw [List.intercalate_cons_cons, List.intercalate_cons_cons]
        exact pieces?_append (pieces?_append hpart hseparator) hrest

/-- The pieces of one member: no comma between them, and no blank at their ends. -/
structure IsMember (part : List Piece) : Prop where
  ne_nil : part ≠ []
  no_comma : ∀ p ∈ part, p.isComma = false
  head_solid : ∀ p ∈ part.head?, p.isBlank = false
  last_solid : ∀ p ∈ part.getLast?, p.isBlank = false

theorem IsMember.singleton {p : Piece} (hcomma : p.isComma = false) (hblank : p.isBlank = false) :
    IsMember [p] := by
  refine ⟨by simp, ?_, ?_, ?_⟩ <;> simpa

/-- The pieces of a word. -/
def wordPieces (word : Text) : List Piece := word.map fun c => .token (.code c)

theorem pieces?_codePhrases (word : Text) :
    pieces? (codePhrases word) = some (wordPieces word) := by
  rw [codePhrases, pieces?_leaves, codes, List.map_map]
  rfl

theorem isMember_wordPieces {word : Text} (hne : word ≠ [])
    (h : ∀ c ∈ word, c ≠ ',' ∧ isBlank c = false) : IsMember (wordPieces word) := by
  have hsolid : ∀ p ∈ wordPieces word, p.isComma = false ∧ p.isBlank = false := by
    intro p hp
    obtain ⟨c, hc, rfl⟩ := List.mem_map.1 hp
    exact ⟨by simpa [Piece.isComma] using (h c hc).1, (h c hc).2⟩
  refine ⟨by simpa [wordPieces] using hne, fun p hp => (hsolid p hp).1, ?_, ?_⟩
  · intro p hp
    exact (hsolid p (List.mem_of_mem_head? hp)).2
  · intro p hp
    exact (hsolid p (List.mem_of_mem_getLast? hp)).2

theorem codeOf?_wordPieces (word : Text) : codeOf? (wordPieces word) = some word := by
  induction word with
  | nil => rfl
  | cons c r ih =>
    change (codeOf? (wordPieces r)).map (c :: ·) = some (c :: r)
    rw [ih, Option.map_some]

theorem readItem_wordPieces (word : Text) : readItem (wordPieces word) = readWord word := by
  cases word with
  | nil => rfl
  | cons c r =>
    change (codeOf? (wordPieces (c :: r))).bind readWord = readWord (c :: r)
    rw [codeOf?_wordPieces, Option.bind_some]

/-! ## One member -/

/-- An operand is read from its phrases. -/
def ReadsMember (ps : List Phrase) (v : Value) : Prop :=
  ∃ part, pieces? ps = some part ∧ IsMember part ∧ readItem part = some v

theorem readsMember_word {word : Text} {v : Value} (hne : word ≠ [])
    (h : ∀ c ∈ word, c ≠ ',' ∧ isBlank c = false) (hread : readWord word = some v) :
    ReadsMember (codePhrases word) v :=
  ⟨_, pieces?_codePhrases word, isMember_wordPieces hne h, by rw [readItem_wordPieces, hread]⟩

theorem decimal_ofNat (n : Nat) : Text.decimal (Text.ofNat n) = n :=
  Nat.ofDigitChars_ten_toDigits

theorem ofNat_ne_nil (n : Nat) : Text.ofNat n ≠ [] := by
  rw [Text.ofNat]
  exact Nat.toDigits_ne_nil

theorem ofInt_ne_nil (n : Int) : Text.ofInt n ≠ [] := by
  cases n with
  | ofNat n => exact ofNat_ne_nil n
  | negSucc n => simp [Text.ofInt]

theorem readDigits_ofNat (n : Nat) : readDigits (Text.ofNat n) = some (n : Int) := by
  have hdigits : (Text.ofNat n).all Char.isDigit = true := by
    rw [List.all_eq_true]
    exact fun c hc => Text.isDigit_of_mem_ofNat hc
  rw [readDigits, if_pos ⟨ofNat_ne_nil n, hdigits⟩, decimal_ofNat]

theorem ofInt?_toInt (n : Int64) : ofInt? n.toInt = some (int n) := by
  rw [ofInt?, if_pos ⟨n.minValue_le_toInt, n.toInt_le⟩, Int64.ofInt_toInt]

/-- A number is no keyword, since it begins with a digit or a minus sign. -/
theorem readWord_number {c : Char} (h : c.isDigit = true ∨ c = '-') (r : Text) :
    readWord (c :: r) = readNumber (c :: r) := by
  have hfirst : ∀ d s, d.isDigit = false → d ≠ '-' → c :: r ≠ d :: s := by
    rintro d s hdigit hminus heq
    obtain ⟨rfl, _⟩ := List.cons.inj heq
    rcases h with h | h
    · simp [hdigit] at h
    · exact hminus h
  have hnull : c :: r ≠ lit "NULL" := hfirst 'N' _ rfl (by decide)
  have htrue : c :: r ≠ lit "true" := hfirst 't' _ rfl (by decide)
  have hfalse : c :: r ≠ lit "false" := hfirst 'f' _ rfl (by decide)
  rw [readWord, if_neg hnull, if_neg htrue, if_neg hfalse]

theorem readNumber_digit {c : Char} (h : c.isDigit = true) (r : Text) :
    readNumber (c :: r) = (readDigits (c :: r)).bind ofInt? := by
  rw [readNumber]
  rintro digits heq
  obtain ⟨rfl, _⟩ := List.cons.inj heq
  simp at h

/-- Integers are read back, the smallest one too. -/
theorem readWord_ofInt (n : Int) : readWord (Text.ofInt n) = ofInt? n := by
  cases n with
  | ofNat n =>
    have hread := readDigits_ofNat n
    have hdigit : ∀ c ∈ Text.ofNat n, c.isDigit = true := fun c => Text.isDigit_of_mem_ofNat
    rw [Text.ofInt]
    cases hword : Text.ofNat n with
    | nil => exact absurd hword (ofNat_ne_nil n)
    | cons c r =>
      rw [hword] at hread hdigit
      have hc := hdigit c (by simp)
      rw [readWord_number (.inl hc), readNumber_digit hc, hread, Option.bind_some]
      rfl
  | negSucc n =>
    rw [Text.ofInt, readWord_number (.inr rfl), readNumber, readDigits_ofNat, Option.bind_some]
    rfl

theorem readsMember_int (n : Int64) : ReadsMember (int n).phrases (int n) := by
  obtain ⟨digits, heq, hdigits⟩ := Text.ofInt_eq n.toInt
  have hread : readWord (Text.ofInt n.toInt) = some (int n) := by
    rw [readWord_ofInt, ofInt?_toInt]
  rw [phrases]
  refine readsMember_word ?_ ?_ hread
  · intro hnil
    rw [hnil] at hread
    simp [readWord, readNumber, readDigits, lit] at hread
  · intro c hc
    rw [heq, List.mem_append] at hc
    rcases hc with hc | hc
    · split at hc
      · obtain rfl : c = '-' := by simpa using hc
        decide
      · simp at hc
    · refine ⟨?_, isBlank_of_isNumeral (hdigits c hc)⟩
      rintro rfl
      have := hdigits _ hc
      simp [isNumeral] at this

theorem readsMember_text (t : Text) : ReadsMember (text t).phrases (text t.withoutNul) := by
  have hcontent := content_ofText t
  obtain ⟨form, body, hquoted⟩ : ∃ form body, ofText t = quoted form body := by
    unfold ofText
    split <;> exact ⟨_, _, rfl⟩
  rw [hquoted] at hcontent
  refine ⟨[.token (ofText t)], rfl, ?_, ?_⟩
  · rw [hquoted]
    exact .singleton rfl rfl
  · rw [hquoted, readItem]
    change (Token.quoted form body).content.map text = _
    rw [hcontent, Option.map_some]

theorem readHexPairs_flatMap (data : List UInt8) :
    readHexPairs (data.flatMap fun b => Text.fixedDigits 16 2 b.toNat) = some data := by
  have hdigit : ∀ k < 16, Text.hexDigit? (Nat.digitChar k) = some k := by decide
  induction data with
  | nil => rfl
  | cons b rest ih =>
    have hhigh := hdigit (b.toNat / 16 % 16) (by omega)
    have hlow := hdigit (b.toNat % 16) (by omega)
    have hbyte : UInt8.ofNat (16 * (b.toNat / 16 % 16) + b.toNat % 16) = b := by
      have := b.toNat_lt
      have hsum : 16 * (b.toNat / 16 % 16) + b.toNat % 16 = b.toNat := by omega
      rw [hsum, UInt8.ofNat_toNat]
    have hpair : Text.fixedDigits 16 2 b.toNat =
        [Nat.digitChar (b.toNat / 16 % 16), Nat.digitChar (b.toNat % 16)] := rfl
    rw [List.flatMap_cons, hpair, List.cons_append, List.singleton_append, readHexPairs, hhigh,
      hlow, ih]
    simp only [Option.bind_eq_bind, Option.bind_some, Option.pure_def, hbyte]

theorem readsMember_bytes (data : List UInt8) : ReadsMember (bytes data).phrases (bytes data) := by
  have htype : IsMember (wordPieces "::bytea") :=
    isMember_wordPieces (by simp [lit]) (by simp [lit, isBlank])
  refine ⟨.token (.quoted .plain (bytesBody data)) :: wordPieces "::bytea", ?_, ?_, ?_⟩
  · have hliteral : pieces? (literalPhrase (bytesBody data)) =
        some [.token (.quoted .plain (bytesBody data))] := rfl
    rw [phrases]
    exact pieces?_append hliteral (pieces?_codePhrases _)
  · refine ⟨by simp, ?_, ?_, ?_⟩
    · intro p hp
      rcases List.mem_cons.1 hp with rfl | hp
      · rfl
      · exact htype.no_comma p hp
    · simp [Piece.isBlank, isBlankCode]
    · intro p hp
      rw [List.getLast?_cons_of_ne_nil htype.ne_nil] at hp
      exact htype.last_solid p hp
  · rw [readItem, codeOf?_wordPieces]
    change (if lit "::bytea" = lit "::bytea" then _ else _) = _
    rw [if_pos rfl, content, Option.bind_some,
      readPlain_eq_self fun c => ne_quote_of_mem_bytesBody]
    change (readHexPairs (data.flatMap fun b => Text.fixedDigits 16 2 b.toNat)).map bytes = _
    rw [readHexPairs_flatMap, Option.map_some]

theorem readsMember_scalar {v : Value} (h : v.listable = true) (hlist : v.isList = false) :
    ReadsMember v.phrases v.withoutNul := by
  cases v with
  | null => exact readsMember_word (by simp [lit]) (by simp [lit, isBlank]) rfl
  | bool b =>
    cases b with
    | false => exact readsMember_word (by simp [lit]) (by simp [lit, isBlank]) rfl
    | true => exact readsMember_word (by simp [lit]) (by simp [lit, isBlank]) rfl
  | int n => exact readsMember_int n
  | text t => exact readsMember_text t
  | bytes data => exact readsMember_bytes data
  | list items => simp [isList] at hlist
  | float | date | timestamp | timestampUtc | raw => simp [listable] at h

/-! ## All members -/

theorem isMember_sublist (items : List Value) : IsMember [.sublist items] :=
  .singleton rfl rfl

/-- Lists with a separator and a gap between them are split one by one, and the gap stays with
the list that follows. -/
theorem splitOnP_intercalate {α : Type} {p : α → Bool} {sep gap : α} (hsep : p sep = true)
    (hgap : p gap = false) {part : List α} {parts : List (List α)}
    (h : ∀ xs ∈ part :: parts, ∀ x ∈ xs, p x = false) :
    ([sep, gap].intercalate (part :: parts)).splitOnP p = part :: parts.map (gap :: ·) := by
  -- what the induction is about begins with the gap of the list before
  have hsplit : ∀ lead : List α, (∀ x ∈ lead, p x = false) →
      (lead ++ [sep, gap].intercalate (part :: parts)).splitOnP p =
        (lead ++ part) :: parts.map (gap :: ·) := by
    induction parts generalizing part with
    | nil =>
      intro lead hlead
      rw [List.intercalate_singleton, List.splitOnP_eq_singleton]
      · rfl
      · intro x hx
        rcases List.mem_append.1 hx with hx | hx
        · exact hlead x hx
        · exact h part (by simp) x hx
    | cons next rest ih =>
      intro lead hlead
      have hfront : ∀ x ∈ lead ++ part, p x = false := by
        intro x hx
        rcases List.mem_append.1 hx with hx | hx
        · exact hlead x hx
        · exact h part (by simp) x hx
      have hrest := ih (fun xs hxs => h xs (List.mem_cons_of_mem _ hxs)) [gap] (by simpa using hgap)
      have hcut : lead ++ [sep, gap].intercalate (part :: next :: rest) =
          (lead ++ part) ++ sep :: ([gap] ++ [sep, gap].intercalate (next :: rest)) := by
        simp [List.intercalate_cons_cons]
      rw [hcut, List.splitOnP_append_cons_of_forall_mem hfront _ hsep, hrest]
      rfl
  simpa using hsplit [] (by simp)

/-- The blank behind a comma does not matter. -/
theorem mapM_readItem_spaced {parts : List (List Piece)} (h : ∀ p ∈ parts, IsMember p) :
    (parts.map (.token (.code ' ') :: ·)).mapM (fun p => readItem (dropEnds Piece.isBlank p)) =
      parts.mapM readItem := by
  induction parts with
  | nil => rfl
  | cons part rest ih =>
    have hmember := h part (by simp)
    have hblank : Piece.isBlank (.token (.code ' ')) = true := rfl
    rw [List.map_cons, List.mapM_cons, List.mapM_cons, ih fun p hp => h p (by simp [hp]),
      dropEnds_cons hblank, dropEnds_eq_self hmember.head_solid hmember.last_solid]

/-- Members with separators between are read one by one. -/
theorem readItems_intercalate {parts : List (List Piece)} (h : ∀ p ∈ parts, IsMember p) :
    readItems (separator.intercalate parts) = parts.mapM readItem := by
  cases parts with
  | nil => rfl
  | cons part rest =>
    have hmember := h part (by simp)
    have hsolid : ¬(separator.intercalate (part :: rest)).all Piece.isBlank = true := by
      obtain ⟨p, r, rfl⟩ := List.exists_cons_of_ne_nil hmember.ne_nil
      have hp : p.isBlank = false := hmember.head_solid p (by simp)
      rw [List.all_eq_true]
      intro hall
      have hmem : p ∈ separator.intercalate ((p :: r) :: rest) := by
        cases rest <;> simp [List.intercalate_cons_cons]
      rw [hall p hmem] at hp
      exact absurd hp (by decide)
    rw [readItems, if_neg hsolid, separator,
      splitOnP_intercalate rfl rfl fun p hp => (h p hp).no_comma, List.mapM_cons, List.mapM_cons,
      mapM_readItem_spaced fun p hp => h p (by simp [hp]),
      dropEnds_eq_self hmember.head_solid hmember.last_solid]

mutual

/-- A list is read from what stands between its brackets. -/
theorem readItems_list : ∀ items : List Value, listableItems items = true →
    ∃ part, pieces? (list items).phrases = some part ∧
      readItems part = some (withoutNulItems items)
  | items, h => by
    obtain ⟨parts, hpieces, hmembers, hread⟩ := readItem_items items h
    refine ⟨separator.intercalate parts, ?_, ?_⟩
    · rw [phrases, pieces?_intercalate hpieces]
    · rw [readItems_intercalate hmembers, hread]

/-- Each member is read from its own pieces, a list by what is inside of it. -/
theorem readItem_items : ∀ items : List Value, listableItems items = true →
    ∃ parts, (phrasesOfItems items).mapM pieces? = some parts ∧ (∀ p ∈ parts, IsMember p) ∧
      parts.mapM readItem = some (withoutNulItems items)
  | [], _ => ⟨[], rfl, by simp, rfl⟩
  | item :: rest, h => by
    rw [listableItems, Bool.and_eq_true] at h
    obtain ⟨parts, hpieces, hmembers, hread⟩ := readItem_items rest h.2
    have hitem : ReadsMember (if item.isList then [group item.phrases] else item.phrases)
        item.withoutNul := by
      cases hlist : item.isList with
      | false => exact readsMember_scalar h.1 hlist
      | true =>
        cases item with
        | list items =>
          obtain ⟨part, hpart, hitems⟩ := readItems_list items h.1
          refine ⟨[.sublist (withoutNulItems items)], ?_, isMember_sublist _, rfl⟩
          simp [pieces?, piece?, hpart, hitems]
        | null | bool | int | float | text | bytes | date | timestamp | timestampUtc | raw =>
          simp [isList] at hlist
    obtain ⟨part, hpart, hmember, hvalue⟩ := hitem
    refine ⟨part :: parts, ?_, ?_, ?_⟩
    · rw [phrasesOfItems, List.mapM_cons, hpart, hpieces]
      rfl
    · intro p hp
      rcases List.mem_cons.1 hp with rfl | hp
      · exact hmember
      · exact hmembers p hp
    · rw [List.mapM_cons, hvalue, hread]
      rfl

end

/-! ## Lists are read back -/

theorem readList_quote {items : List Value} (h : listableItems items = true) :
    readList (list items).quote = some (withoutNulItems items) := by
  have hfree := rawFree_of_listable (list items) h
  have hclear : Clear (tokensOfAll (list items).phrases) := by
    refine clear_phrases _ fun t ht => ?_
    rw [hfree] at ht
    exact absurd ht List.not_mem_nil
  have hscan : scan (list items).quote = some (tokensOfAll (list items).phrases) :=
    scan_eq_some_iff.2 ⟨spellAll_phrases _, hclear.fits⟩
  have hnest : nest (tokensOfAll (list items).phrases) = some (list items).phrases :=
    nest_eq_some_iff.2 ⟨rfl, proper_phrases _ hfree⟩
  obtain ⟨part, hpart, hread⟩ := readItems_list items h
  rw [readList, hscan]
  simp only [Option.bind_eq_bind, Option.bind_some, hnest, hpart, hread]

/-- A list of any depth is read back as it was, up to NUL characters, so lists that differ
in more than these are written differently. -/
theorem list_quote_lossless {items : List Value} (h : (list items).listable = true) :
    readList (list items).quote = some (withoutNulItems items) ∧
      ∀ items' : List Value, (list items').listable = true →
        (list items').quote = (list items).quote →
          withoutNulItems items' = withoutNulItems items := by
  refine ⟨readList_quote h, ?_⟩
  intro items' h' heq
  have hread := readList_quote h
  rw [← heq, readList_quote h'] at hread
  exact Option.some.inj hread

/-- Separators, brackets, quotes and a type suffix inside of text, and lists without members. -/
theorem list_quote_lossless_nested :
    readList (list [list [], text "a, ('b', NULL), '\\x00'::bytea", int (-7),
      list [null, list [bool true, bytes [0, 255]], text ['\\', '\'', '\x00']]]).quote =
      some [list [], text "a, ('b', NULL), '\\x00'::bytea", int (-7),
        list [null, list [bool true, bytes [0, 255]], text ['\\', '\'']]] :=
  (list_quote_lossless (by decide)).1

end Value

end SqlCompose
