import Mathlib
import SqlCompose.Proofs.Reading.Digits
import SqlCompose.Proofs.RowCount.Number

/-!
# Counts at the front of a text

A `TOP` may be given as a text, and then counts by the number at the front of it.

* `BeginsWithCount` is the grammar: blanks, at most one plus sign, all the digits behind
  it, and anything.  `beginsWithCount_iff` finds the parts in the text.
* `rows_text_iff` says that the rows are those of the grammar, as far as a signed word
  goes.
* `readByBytes` reads the number the way a machine does: the sign is a byte, the text is
  cut at byte indices, and the digits are gathered in signed words.  Each of these steps can
  fail in it, by a cut inside a character or a number that is no word.
  `readByBytes_eq` says that none ever does, and that the number is the one that
  is read by characters.

Main result: `clause_of_text`.
-/

namespace SqlCompose

namespace Top

/-! ## The grammar -/

/-- A digit of the decimal system in ASCII. -/
def IsDecimalDigit (c : Char) : Prop := '0' ≤ c ∧ c ≤ '9'

/-- The number of a run of digits, by the places of the digits. -/
def valueOf (digits : Text) : ℕ := Nat.ofDigits 10 (digits.reverse.map fun c => c.toNat - '0'.toNat)

/-- A text that begins with a count: blanks, at most one plus sign, and as many digits as there
are.  Anything may follow. -/
def BeginsWithCount (t : Text) (n : ℕ) : Prop :=
  ∃ blanks sign digits rest : Text, t = blanks ++ sign ++ digits ++ rest ∧
    (∀ c ∈ blanks, isBlank c = true) ∧ (sign = [] ∨ sign = ['+']) ∧
    digits ≠ [] ∧ (∀ c ∈ digits, IsDecimalDigit c) ∧ (∀ c ∈ rest.head?, ¬IsDecimalDigit c) ∧
    valueOf digits = n

theorem isDecimalDigit_iff {c : Char} : IsDecimalDigit c ↔ c.isDigit = true := by
  simp [IsDecimalDigit, Char.isDigit, Char.le_def]

theorem valueOf_eq_decimal (digits : Text) : valueOf digits = Text.decimal digits := by
  induction digits using List.reverseRecOn with
  | nil => rfl
  | append_singleton digits c ih =>
    rw [valueOf, List.reverse_append, List.reverse_singleton, List.singleton_append, List.map_cons,
      Nat.ofDigits_cons, ← valueOf, ih, Text.decimal_concat, Nat.add_comm]

/-- A text without the plus sign at its front. -/
def unsigned : Text → Text
  | '+' :: rest => rest
  | t => t

/-- The digits that a text counts by. -/
def digitRun (t : Text) : Text := (unsigned t.trimStart).takeWhile Char.isDigit

theorem unsigned_of_ne {c : Char} (h : c ≠ '+') (rest : Text) :
    unsigned (c :: rest) = c :: rest := by
  rw [unsigned]
  intro tail heq
  exact h (List.cons.inj heq).1

theorem exists_unsigned (t : Text) :
    ∃ sign : Text, (sign = [] ∨ sign = ['+']) ∧ t = sign ++ unsigned t := by
  unfold unsigned
  split
  · exact ⟨['+'], .inr rfl, rfl⟩
  · exact ⟨[], .inl rfl, rfl⟩

/-- The digits behind blanks and a plus sign are what a text counts by. -/
theorem digitRun_append {blanks sign digits rest : Text} (hblanks : ∀ c ∈ blanks, isBlank c = true)
    (hsign : sign = [] ∨ sign = ['+']) (hne : digits ≠ [])
    (hdigits : ∀ c ∈ digits, c.isDigit = true) (hrest : ∀ c ∈ rest.head?, c.isDigit = false) :
    digitRun (blanks ++ sign ++ digits ++ rest) = digits := by
  have htake := (Text.span_digits hdigits hrest).1
  have hsolid : ∀ t : Text, (∀ c ∈ t.head?, isBlank c = false) → (blanks ++ t).trimStart = t := by
    intro t ht
    rw [Text.trimStart, List.dropWhile_append_of_pos hblanks, dropWhile_eq_self ht]
  rw [digitRun, List.append_assoc, List.append_assoc]
  rcases hsign with rfl | rfl
  · obtain ⟨c, tail, rfl⟩ := List.exists_cons_of_ne_nil hne
    have hc : c.isDigit = true := hdigits c List.mem_cons_self
    have hplus : c ≠ '+' := by
      rintro rfl
      exact absurd hc (by decide)
    have hhead : ∀ x ∈ (c :: tail ++ rest).head?, isBlank x = false := by
      simpa using isBlank_of_isNumeral (by simp [isNumeral, hc])
    rw [List.nil_append, hsolid _ hhead, List.cons_append, unsigned_of_ne hplus,
      ← List.cons_append, htake]
  · rw [hsolid _ (by simp [isBlank]), List.singleton_append, unsigned, htake]

/-- The parts of the grammar are found in the text: what is read are the digits behind its blanks
and its plus sign. -/
theorem beginsWithCount_iff {t : Text} {n : ℕ} :
    BeginsWithCount t n ↔ digitRun t ≠ [] ∧ Text.decimal (digitRun t) = n := by
  constructor
  · rintro ⟨blanks, sign, digits, rest, rfl, hblanks, hsign, hne, hdigits, hrest, rfl⟩
    simp only [isDecimalDigit_iff, Bool.not_eq_true] at hdigits hrest
    rw [digitRun_append hblanks hsign hne hdigits hrest, valueOf_eq_decimal]
    exact ⟨hne, rfl⟩
  · rintro ⟨hne, rfl⟩
    obtain ⟨sign, hsign, hunsigned⟩ := exists_unsigned t.trimStart
    refine ⟨t.takeWhile isBlank, sign, digitRun t, (unsigned t.trimStart).dropWhile Char.isDigit,
      ?_, fun _ => List.mem_takeWhile_imp, hsign, hne, ?_, ?_, valueOf_eq_decimal _⟩
    · rw [List.append_assoc, List.append_assoc, digitRun, List.takeWhile_append_dropWhile,
        ← hunsigned, Text.trimStart, List.takeWhile_append_dropWhile]
    · intro c hc
      exact isDecimalDigit_iff.2 (List.mem_takeWhile_imp hc)
    · intro c hc
      have hend := List.head?_dropWhile_not Char.isDigit (unsigned t.trimStart)
      rw [Option.mem_def.1 hc] at hend
      rw [isDecimalDigit_iff, hend]
      exact Bool.false_ne_true

/-! ## The rows of a text -/

theorem leadingInt_of_minus {t rest : Text} (h : t.trimStart = '-' :: rest) :
    leadingInt t = (leadingDigits rest).map (-·) := by
  rw [leadingInt, h]
  rfl

/-- Without a minus sign the number is the one of the digits. -/
theorem leadingInt_of_unsigned {t : Text} (h : t.trimStart.head? ≠ some '-') :
    leadingInt t = leadingDigits (unsigned t.trimStart) := by
  rw [leadingInt]
  split
  · rename_i rest heq
    rw [heq] at h
    exact absurd rfl h
  · rename_i rest heq
    rw [heq, unsigned]
  · rename_i hplus
    cases heq : t.trimStart with
    | nil => rfl
    | cons c rest =>
      rw [unsigned_of_ne]
      rintro rfl
      exact hplus rest heq

theorem leadingDigits_eq_some_iff {s : Text} {n : Int64} :
    leadingDigits s = some n ↔ s.takeWhile Char.isDigit ≠ [] ∧
      Text.decimal (s.takeWhile Char.isDigit) < 2 ^ 63 ∧
      n = Int64.ofNat (Text.decimal (s.takeWhile Char.isDigit)) := by
  have hmax : Int64.maxValue.toInt = 2 ^ 63 - 1 := by decide
  rw [leadingDigits, hmax]
  generalize s.takeWhile Char.isDigit = digits
  by_cases hne : digits = []
  · simp [hne]
  · simp only [List.isEmpty_eq_false_iff.2 hne, Bool.false_or, decide_eq_true_eq]
    split_ifs with hbig
    · simp only [false_iff]
      omega
    · rw [Option.some_inj]
      exact ⟨fun h => ⟨hne, by omega, h.symm⟩, fun h => h.2.2.symm⟩

theorem toInt_leadingDigits {s : Text} {n : Int64} (h : leadingDigits s = some n) :
    n.toInt = Text.decimal (s.takeWhile Char.isDigit) := by
  obtain ⟨-, hfits, rfl⟩ := leadingDigits_eq_some_iff.1 h
  exact Int64.toInt_ofNat_of_lt hfits

theorem toInt_neg_of_nonneg {n : Int64} (h : 0 ≤ n.toInt) : (-n).toInt = -n.toInt := by
  have hlt := n.toInt_lt
  rw [Int64.toInt_neg, Int.bmod_eq_of_le (by omega) (by omega)]

theorem askedRows_eq_some_iff {n : Int64} {k : ℕ} :
    askedRows n = some k ↔ n.toInt = k ∧ 1 ≤ k := by
  have hpositive : 0 < n ↔ 0 < n.toInt := Int64.lt_iff_toInt_lt
  rw [askedRows]
  simp only [hpositive]
  split_ifs with h
  · rw [Option.some_inj]
    omega
  · simp only [false_iff]
    omega

/-- The rows of a text: those of the grammar, if they are one at least and a signed word can
count them. -/
theorem rows_text_iff {t : Text} {k : ℕ} :
    (leadingInt t).bind askedRows = some k ↔
      BeginsWithCount t k ∧ 1 ≤ k ∧ k ≤ 2 ^ 63 - 1 := by
  rw [beginsWithCount_iff, Option.bind_eq_some_iff]
  by_cases hminus : t.trimStart.head? = some '-'
  · obtain ⟨rest, hrest⟩ := List.head?_eq_some_iff.1 hminus
    have hrun : digitRun t = [] := by
      rw [digitRun, hrest, unsigned_of_ne (by decide)]
      rfl
    refine iff_of_false ?_ fun h => h.1.1 hrun
    rintro ⟨n, hn, hk⟩
    rw [leadingInt_of_minus hrest, Option.map_eq_some_iff] at hn
    obtain ⟨m, hm, rfl⟩ := hn
    have hnat := toInt_leadingDigits hm
    have hneg := toInt_neg_of_nonneg (hnat ▸ Int.natCast_nonneg _)
    have hpositive := askedRows_eq_some_iff.1 hk
    omega
  · rw [leadingInt_of_unsigned hminus]
    constructor
    · rintro ⟨n, hn, hk⟩
      obtain ⟨hne, hfits, -⟩ := leadingDigits_eq_some_iff.1 hn
      have hnat := toInt_leadingDigits hn
      obtain ⟨hvalue, hone⟩ := askedRows_eq_some_iff.1 hk
      have hrun : Text.decimal (digitRun t) = k := by
        rw [digitRun]
        omega
      exact ⟨⟨hne, hrun⟩, hone, by rw [← hrun, digitRun]; omega⟩
    · rintro ⟨⟨hne, rfl⟩, hone, hfits⟩
      have hlt : Text.decimal (digitRun t) < 2 ^ 63 := by omega
      refine ⟨_, leadingDigits_eq_some_iff.2 ⟨hne, hlt, rfl⟩, ?_⟩
      exact askedRows_eq_some_iff.2 ⟨Int64.toInt_ofNat_of_lt hlt, hone⟩

/-! ## Reading by bytes -/

/-- What a step of a reading by bytes may fail with. -/
inductive Fault where
  /-- A cut inside a character, or behind the end. -/
  | cut
  /-- A number that is no signed word. -/
  | overflow

/-- The bytes of a text in UTF-8. -/
def bytes (t : Text) : List UInt8 := t.flatMap String.utf8EncodeChar

/-- The parts of a text in front of a byte and from it on. -/
def cutAt : Text → ℕ → Except Fault (Text × Text)
  | t, 0 => .ok ([], t)
  | [], _ + 1 => .error .cut
  | c :: rest, n + 1 =>
    if c.utf8Size ≤ n + 1 then
      (cutAt rest (n + 1 - c.utf8Size)).map fun (front, behind) => (c :: front, behind)
    else .error .cut

/-- The index of the first byte of a character with a property. -/
def byteIndex? (p : Char → Bool) : Text → Option ℕ
  | [] => none
  | c :: rest => if p c then some 0 else (byteIndex? p rest).map (c.utf8Size + ·)

/-- A number as a signed word, if it is one. -/
def word? (n : ℤ) : Option Int64 :=
  if Int64.minValue.toInt ≤ n ∧ n ≤ Int64.maxValue.toInt then some (Int64.ofInt n) else none

/-- One more digit behind a word.  Neither the tenfold nor the sum may leave the range. -/
def pushDigit (n : Int64) (c : Char) : Option Int64 :=
  (word? (n.toInt * 10)).bind fun shifted => word? (shifted.toInt + (c.toNat - '0'.toNat : ℕ))

/-- The word that a run of digits denotes, if there are digits and they denote one. -/
def wordOf? (digits : Text) : Option Int64 :=
  if digits.isEmpty then none else digits.foldlM pushDigit 0

/-- The product of two words. -/
def product (a b : Int64) : Except Fault Int64 :=
  match word? (a.toInt * b.toInt) with
  | some n => .ok n
  | none => .error .overflow

/-- The sign that the first byte says, and the text behind it. -/
def splitSign (t : Text) : Except Fault (Int64 × Text) :=
  if (bytes t).head? = some 0x2D then (cutAt t 1).map fun (_, digits) => (-1, digits)
  else if (bytes t).head? = some 0x2B then (cutAt t 1).map fun (_, digits) => (1, digits)
  else .ok (1, t)

/-- The number at the front of a text, read by bytes: the sign, the text up to the first byte
that belongs to no digit, the word of that text, and the product with the sign. -/
def readByBytes (t : Text) : Except Fault (Option Int64) := do
  let (sign, digits) ← splitSign t.trimStart
  let stop := (byteIndex? (fun c => !c.isDigit) digits).getD (bytes digits).length
  let (front, _) ← cutAt digits stop
  match wordOf? front with
  | some n => (product sign n).map some
  | none => .ok none

theorem length_bytes_cons (c : Char) (t : Text) :
    (bytes (c :: t)).length = c.utf8Size + (bytes t).length := by
  rw [bytes, List.flatMap_cons, List.length_append, String.length_utf8EncodeChar, bytes]

/-- A cut between characters gives the parts. -/
theorem cutAt_append (front behind : Text) :
    cutAt (front ++ behind) (bytes front).length = .ok (front, behind) := by
  induction front with
  | nil => rw [bytes, List.flatMap_nil, List.length_nil, List.nil_append, cutAt]
  | cons c front ih =>
    obtain ⟨k, hk⟩ := Nat.exists_eq_add_one.2 c.utf8Size_pos
    have hlength : (bytes (c :: front)).length = (k + (bytes front).length) + 1 := by
      rw [length_bytes_cons]
      omega
    have hrest : k + (bytes front).length + 1 - c.utf8Size = (bytes front).length := by omega
    rw [hlength, List.cons_append, cutAt, if_pos (by omega), hrest, ih]
    rfl

/-- An ASCII character is told by its byte. -/
theorem head?_bytes_iff {c : Char} (hc : c.toNat < 128) (t : Text) :
    (bytes t).head? = some (UInt8.ofNat c.toNat) ↔ t.head? = some c := by
  have hsize : UInt8.size = 256 := rfl
  have hbyte : ∀ n, n < 256 → (UInt8.ofNat n = UInt8.ofNat c.toNat ↔ n = c.toNat) := by
    intro n hn
    rw [← UInt8.toNat_inj, UInt8.toNat_ofNat_of_lt' (by omega), UInt8.toNat_ofNat_of_lt' (by omega)]
  cases t with
  | nil => simp [bytes]
  | cons d rest =>
    have hd : d = c ↔ d.toNat = c.toNat := Char.toNat_inj.symm
    rw [bytes, List.flatMap_cons, List.head?_cons, Option.some_inj, hd, String.utf8EncodeChar]
    change _ ↔ d.val.toNat = c.toNat
    split_ifs with hone htwo hthree <;>
      rw [List.cons_append, List.head?_cons, Option.some_inj, hbyte _ (by omega)]
    all_goals omega

/-- The sign and the text behind it are the same by characters. -/
theorem splitSign_eq (t : Text) :
    splitSign t = .ok (if t.head? = some '-' then (-1, t.tail) else (1, unsigned t)) := by
  have hminus : (bytes t).head? = some 0x2D ↔ t.head? = some '-' :=
    head?_bytes_iff (c := '-') (by decide) t
  have hplus : (bytes t).head? = some 0x2B ↔ t.head? = some '+' :=
    head?_bytes_iff (c := '+') (by decide) t
  simp only [splitSign, hminus, hplus]
  split_ifs with hm hp
  · obtain ⟨rest, rfl⟩ := List.head?_eq_some_iff.1 hm
    exact congrArg (Except.map _) (cutAt_append ['-'] rest)
  · obtain ⟨rest, rfl⟩ := List.head?_eq_some_iff.1 hp
    exact congrArg (Except.map _) (cutAt_append ['+'] rest)
  · cases t with
    | nil => rfl
    | cons c rest => rw [unsigned_of_ne fun hc => hp (congrArg some hc)]

/-- The first byte that belongs to no digit is the one behind the digits. -/
theorem byteIndex?_getD (t : Text) :
    (byteIndex? (fun c => !c.isDigit) t).getD (bytes t).length =
      (bytes (t.takeWhile Char.isDigit)).length := by
  induction t with
  | nil => rfl
  | cons c rest ih =>
    rw [byteIndex?, length_bytes_cons]
    by_cases hc : c.isDigit = true
    · rw [List.takeWhile_cons_of_pos hc, length_bytes_cons, ← ih]
      cases byteIndex? (fun c => !c.isDigit) rest <;> simp [hc]
    · simp [hc, bytes]

theorem word?_natCast (n : ℕ) :
    word? n = if n < 2 ^ 63 then some (Int64.ofNat n) else none := by
  have hmin : Int64.minValue.toInt = -2 ^ 63 := by decide
  have hmax : Int64.maxValue.toInt = 2 ^ 63 - 1 := by decide
  rw [word?, hmin, hmax]
  congr 1
  rw [eq_iff_iff]
  omega

theorem pushDigit_eq {n : Int64} {k : ℕ} (hn : n.toInt = k) (c : Char) :
    pushDigit n c = word? ((10 * k + (c.toNat - '0'.toNat) : ℕ)) := by
  have hshift : n.toInt * 10 = (10 * k : ℕ) := by
    rw [hn]
    push_cast
    ring
  rw [pushDigit, hshift, word?_natCast, word?_natCast]
  split_ifs with htenfold hsum
  · rw [Option.bind_some, Int64.toInt_ofNat_of_lt htenfold, ← Nat.cast_add, word?_natCast,
      if_pos hsum]
  · rw [Option.bind_some, Int64.toInt_ofNat_of_lt htenfold, ← Nat.cast_add, word?_natCast,
      if_neg hsum]
  · omega
  · rfl

theorem le_decimalFrom (n : ℕ) (digits : Text) : n ≤ Text.decimalFrom n digits := by
  induction digits generalizing n with
  | nil => exact le_rfl
  | cons c digits ih =>
    have hnext := ih (10 * n + (c.toNat - '0'.toNat))
    rw [Text.decimalFrom, List.foldl_cons, ← Text.decimalFrom]
    omega

/-- Gathering digits in words fails exactly where the whole number is no word, since a number
only grows with its digits. -/
theorem foldlM_pushDigit (digits : Text) {n : Int64} {k : ℕ} (hn : n.toInt = k) :
    digits.foldlM pushDigit n = word? (Text.decimalFrom k digits) := by
  induction digits generalizing n k with
  | nil =>
    have hfits := n.toInt_lt
    rw [List.foldlM_nil, Text.decimalFrom, List.foldl_nil, word?_natCast, if_pos (by omega),
      ← Int64.ofInt_eq_ofNat, ← hn, Int64.ofInt_toInt]
    rfl
  | cons c digits ih =>
    have hnext := le_decimalFrom (10 * k + (c.toNat - '0'.toNat)) digits
    rw [List.foldlM_cons, pushDigit_eq hn, Text.decimalFrom, List.foldl_cons, ← Text.decimalFrom,
      word?_natCast]
    split_ifs with hfits
    · exact ih (Int64.toInt_ofNat_of_lt hfits)
    · rw [word?_natCast, if_neg (by omega)]
      rfl

theorem wordOf?_takeWhile (t : Text) : wordOf? (t.takeWhile Char.isDigit) = leadingDigits t := by
  have hmax : Int64.maxValue.toInt = 2 ^ 63 - 1 := by decide
  rw [wordOf?, leadingDigits, hmax, foldlM_pushDigit _ (k := 0) (by decide), word?_natCast,
    ← Text.decimal]
  generalize t.takeWhile Char.isDigit = digits
  by_cases hne : digits = []
  · simp [hne]
  · rw [List.isEmpty_eq_false_iff.2 hne, if_neg Bool.false_ne_true, Bool.false_or]
    simp only [decide_eq_true_eq]
    by_cases hfits : Text.decimal digits < 2 ^ 63
    · rw [if_pos hfits, if_neg (by omega)]
    · rw [if_neg hfits, if_pos (by omega)]

theorem word?_toInt (n : Int64) : word? n.toInt = some n := by
  rw [word?, if_pos ⟨n.minValue_le_toInt, n.toInt_le⟩, Int64.ofInt_toInt]

/-- The product of a sign with what digits denote is a word. -/
theorem product_sign {n : Int64} (h : 0 ≤ n.toInt) :
    product 1 n = .ok n ∧ product (-1) n = .ok (-n) := by
  have hone : (1 : Int64).toInt * n.toInt = n.toInt := by
    have hsign : (1 : Int64).toInt = 1 := by decide
    rw [hsign, one_mul]
  have hneg : (-1 : Int64).toInt * n.toInt = (-n).toInt := by
    have hsign : (-1 : Int64).toInt = -1 := by decide
    rw [hsign, toInt_neg_of_nonneg h, neg_one_mul]
  rw [product, product, hone, hneg, word?_toInt, word?_toInt]
  exact ⟨rfl, rfl⟩

/-- Behind the sign the digits are read up to their end. -/
theorem cutAt_digits (digits : Text) :
    cutAt digits ((byteIndex? (fun c => !c.isDigit) digits).getD (bytes digits).length) =
      .ok (digits.takeWhile Char.isDigit, digits.dropWhile Char.isDigit) := by
  have hcut := cutAt_append (digits.takeWhile Char.isDigit) (digits.dropWhile Char.isDigit)
  rwa [List.takeWhile_append_dropWhile, ← byteIndex?_getD] at hcut

/-- Reading by bytes never cuts a character and never leaves the signed words, and it reads what
is read by characters. -/
theorem readByBytes_eq (t : Text) : readByBytes t = .ok (leadingInt t) := by
  have hsigned : ∀ (sign : Int64) (digits : Text) (f : Int64 → Int64),
      (∀ n : Int64, 0 ≤ n.toInt → product sign n = .ok (f n)) →
      (match leadingDigits digits with
        | some n => (product sign n).map some
        | none => .ok none) = Except.ok ((leadingDigits digits).map f) := by
    intro sign digits f hproduct
    cases hn : leadingDigits digits with
    | none => rfl
    | some n =>
      have hnonneg : 0 ≤ n.toInt := toInt_leadingDigits hn ▸ Int.natCast_nonneg _
      exact congrArg (Except.map some) (hproduct n hnonneg)
  rw [readByBytes, splitSign_eq]
  split_ifs with hminus
  · obtain ⟨rest, hrest⟩ := List.head?_eq_some_iff.1 hminus
    rw [leadingInt_of_minus hrest, hrest, List.tail_cons]
    simp only [bind, Except.bind]
    rw [cutAt_digits]
    simp only [wordOf?_takeWhile]
    exact hsigned (-1) rest _ fun n hn => (product_sign hn).2
  · rw [leadingInt_of_unsigned hminus]
    simp only [bind, Except.bind]
    rw [cutAt_digits]
    simp only [wordOf?_takeWhile]
    have hone := hsigned 1 (unsigned t.trimStart) id fun n hn => (product_sign hn).1
    rwa [Option.map_id] at hone

/-! ## The clause of a text -/

theorem countClause_eq_some_iff (keyword : Text) {rows : Option ℕ} {n : ℕ} :
    countClause keyword rows = keyword ++ ' ' :: Text.ofNat n ↔ rows = some n := by
  cases rows with
  | none => simp [countClause]
  | some k =>
    rw [countClause, List.append_cancel_left_eq, List.cons_inj_right, Option.some_inj]
    refine ⟨fun h => ?_, fun h => h ▸ rfl⟩
    rw [← Value.decimal_ofNat k, h, Value.decimal_ofNat]

theorem countClause_eq_nil_iff {keyword : Text} {rows : Option ℕ} :
    countClause keyword rows = [] ↔ rows = none := by
  cases rows <;> simp [countClause]

theorem clause_text (t : Text) :
    Top.clause (some (.text t)) = countClause "TOP" ((leadingInt t).bind askedRows) := by
  cases hrows : leadingInt t with
  | none => rw [Top.clause, Option.bind_some, rows, hrows, Option.bind_none, countClause]
  | some n => rw [clause_of_rows (t := .text t) hrows, Option.bind_some]

/-- A text counts by the one grammar: the clause has a number exactly if the text begins with
that count, it is one at least and a signed word can hold it, and there is no clause exactly if
the text begins with no such count.  Reading it by bytes cuts no character and stays within the
signed words, and it finds the same number. -/
theorem clause_of_text (t : Text) :
    (∀ n : ℕ, Top.clause (some (.text t)) = "TOP " ++ Text.ofNat n ↔
      BeginsWithCount t n ∧ 1 ≤ n ∧ n ≤ 2 ^ 63 - 1) ∧
    (Top.clause (some (.text t)) = [] ↔
      ¬∃ n, BeginsWithCount t n ∧ 1 ≤ n ∧ n ≤ 2 ^ 63 - 1) ∧
    readByBytes t = .ok (leadingInt t) := by
  refine ⟨fun n => ?_, ?_, readByBytes_eq t⟩
  · rw [clause_text, ← rows_text_iff]
    exact countClause_eq_some_iff "TOP"
  · rw [clause_text, countClause_eq_nil_iff, Option.eq_none_iff_forall_ne_some, not_exists]
    simp only [ne_eq, rows_text_iff]

example :
    Top.clause (some (.text "\t+007rows")) = lit "TOP 7" ∧
      Top.clause (some (.text "9223372036854775808")) = [] ∧
      Top.clause (some (.text "+ 4")) = [] ∧ Top.clause (some (.text "+-4")) = [] ∧
      Top.clause (some (.text "\u0663")) = [] := by
  decide +kernel

end Top

end SqlCompose
