import SqlCompose.Proofs.OperandList
import SqlCompose.Proofs.Position
import SqlCompose.Proofs.Reading.Setting

/-!
# Byte literals under either setting

A server reads a byte literal in two stages.  The first makes a string of
bytes of what stands between the quotes; it takes a backslash for itself, or,
with `standard_conforming_strings` off, for the beginning of an escape, and
there `\x` with one or two digits is a byte.  The second is the input of the
byte type: pairs of hexadecimal digits behind `\x`, or else the bytes as they
are, where a backslash stands in front of another one or of three octal digits.

The literal that the library writes means its bytes with the setting on.
With the setting off the first stage already takes the `\x` and one byte.
What it leaves for the second stage is that byte with the digits of the others
behind it (`readString_escaped`), or the letter alone if there is no byte, and
that is another byte string in almost every case.

A byte in a string stands as the character of its number.  Apart from the
escapes that one of them has and the other has not, the first stage and the
reader of text literals are the same (`readString_eq_readBody`).

Main result: `bytes_read_same_iff`.
-/

namespace SqlCompose

namespace ByteLiteral

open Text (readOn)

/-! ## Reading -/

/-- The string in front of the quote that ends a literal, and the text behind that quote.
Outside of escapes there are only characters that are one byte in every encoding. -/
def readString : Bool → Text → Option (Text × Text)
  | escapes, '\'' :: '\'' :: rest => readOn '\'' (readString escapes rest)
  | _, '\'' :: rest => some ([], rest)
  | true, '\\' :: 'x' :: high :: low :: rest =>
    match Text.hexDigit? high, Text.hexDigit? low with
    | none, _ => readOn 'x' (readString true (high :: low :: rest))
    | some n, none => readOn (Char.ofNat n) (readString true (low :: rest))
    | some n, some k => readOn (Char.ofNat (16 * n + k)) (readString true rest)
  | true, '\\' :: letter :: rest => do
    let c ← Text.letterEscape? letter
    readOn c (readString true rest)
  | true, ['\\'] => none
  | escapes, c :: rest => if c.toNat < 128 then readOn c (readString escapes rest) else none
  | _, [] => none

/-- Whether a server takes a string: there is no NUL in it, and where it goes beyond ASCII it
has to be valid in the encoding of the server. -/
def accepts (valid : Text → Bool) (s : Text) : Bool :=
  !s.contains '\x00' && (s.all (fun c => c.toNat < 128) || valid s)

/-- The byte of three octal digits. -/
def octalByte? (a b c : Char) : Option UInt8 := do
  let x ← Text.hexDigit? a
  let y ← Text.hexDigit? b
  let z ← Text.hexDigit? c
  if x < 4 ∧ y < 8 ∧ z < 8 then some (UInt8.ofNat (64 * x + 8 * y + z)) else none

/-- The bytes of a string that is not in hexadecimal. -/
def readEscaped : Text → Option (List UInt8)
  | [] => some []
  | '\\' :: '\\' :: rest => (readEscaped rest).map (0x5C :: ·)
  | '\\' :: a :: b :: c :: rest => do
    let byte ← octalByte? a b c
    (readEscaped rest).map (byte :: ·)
  | '\\' :: _ => none
  | c :: rest => (readEscaped rest).map (UInt8.ofNat c.toNat :: ·)

/-- The bytes that a string is the input of. -/
def readBytes : Text → Option (List UInt8)
  | '\\' :: 'x' :: digits => Value.readHexPairs digits
  | s => readEscaped s

/-- The bytes that a server makes of a string, if it takes it. -/
def denote (valid : Text → Bool) (s : Text) : Option (List UInt8) :=
  if accepts valid s then readBytes s else none

/-- The bytes of a string that is cast to their type by the text behind it. -/
def cast (valid : Text → Bool) (s behind : Text) : Option (List UInt8 × Text) :=
  ((lit "::bytea").isPrefixOf? behind).bind fun rest => (denote valid s).map (·, rest)

/-- The bytes that the literal at the front of a text denotes, and the text behind it. -/
def read (valid : Text → Bool) (conforming : Bool) : Text → Option (List UInt8 × Text)
  | '\'' :: rest => (readString (!conforming) rest).bind fun (s, behind) => cast valid s behind
  | 'E' :: '\'' :: rest => (readString true rest).bind fun (s, behind) => cast valid s behind
  | _ => none

/-- With the backslash written twice the literal is the same under both settings. -/
example (valid : Text → Bool) (conforming : Bool) :
    read valid conforming "E'\\\\x0aff'::bytea, 1" = some ([0x0a, 0xff], lit ", 1") := by
  cases conforming <;> rfl

/-! ## Digits -/

/-- The hexadecimal digits of bytes, two for each. -/
def digits (data : List UInt8) : Text := data.flatMap fun b => Text.fixedDigits 16 2 b.toNat

theorem digits_cons (b : UInt8) (data : List UInt8) :
    digits (b :: data) =
      Nat.digitChar (b.toNat / 16) :: Nat.digitChar (b.toNat % 16) :: digits data := by
  have hhigh : b.toNat / 16 % 16 = b.toNat / 16 := by
    have := b.toNat_lt
    omega
  rw [digits, List.flatMap_cons, Text.fixedDigits, Text.fixedDigits, Text.fixedDigits, hhigh]
  rfl

theorem length_digits (data : List UInt8) : (digits data).length = 2 * data.length := by
  induction data with
  | nil => rfl
  | cons b data ih =>
    rw [digits_cons, List.length_cons, List.length_cons, ih, List.length_cons]
    omega

theorem hexDigit?_digitChar : ∀ k < 16, Text.hexDigit? (Nat.digitChar k) = some k := by decide

/-- A digit is a character of ASCII, `0` or a later one. -/
theorem toNat_digitChar :
    ∀ k < 16, 48 ≤ (Nat.digitChar k).toNat ∧ (Nat.digitChar k).toNat < 128 := by decide

theorem mem_digits {data : List UInt8} {c : Char} (h : c ∈ digits data) :
    ∃ k < 16, c = Nat.digitChar k := by
  obtain ⟨b, _, h⟩ := List.mem_flatMap.1 h
  rw [Text.fixedDigits, Text.fixedDigits, Text.fixedDigits] at h
  rcases List.mem_cons.1 h with rfl | h
  · exact ⟨_, Nat.mod_lt _ (by decide), rfl⟩
  · exact ⟨_, Nat.mod_lt _ (by decide), by simpa using h⟩

/-- Whether a character stands for itself in every literal: one of ASCII that is no quote, no
backslash and not NUL. -/
def isOrdinary (c : Char) : Bool := c != '\'' && c != '\\' && c != '\x00' && c.toNat < 128

theorem isOrdinary_digitChar : ∀ k < 16, isOrdinary (Nat.digitChar k) = true := by decide

theorem isOrdinary_of_mem_digits {data : List UInt8} {c : Char} (h : c ∈ digits data) :
    isOrdinary c = true := by
  obtain ⟨k, hk, rfl⟩ := mem_digits h
  exact isOrdinary_digitChar k hk

/-! ## The first stage -/

section

variable {escapes : Bool} {c : Char} {t rest : Text}

/-- Two readings that give the same, as far as both give anything, still do with one more
character. -/
theorem readOn_congr {x y : Option (Text × Text)}
    (hxy : ∀ {a b}, x = some a → y = some b → a = b) {a b : Text × Text}
    (ha : readOn c x = some a) (hb : readOn c y = some b) : a = b := by
  obtain ⟨p, hp, rfl⟩ := Option.map_eq_some_iff.1 ha
  obtain ⟨q, hq, rfl⟩ := Option.map_eq_some_iff.1 hb
  rw [hxy hp hq]

/-- A literal that is read here and as a text literal is the same to both readers. -/
theorem readString_eq_readBody {found found' : Text × Text}
    (h : readString escapes t = some found) (h' : Text.readBody escapes t = some found') :
    found = found' := by
  fun_induction Text.readBody escapes t generalizing found found' with
  | case1 _ t ih => exact readOn_congr ih h h'
  | case2 _ t hnext =>
    rw [readString] at h
    · exact Option.some.inj (h.symm.trans h')
    · exact hnext
  | case3 h₁ h₂ h₃ h₄ t ih =>
    -- A number behind `\u` is an escape of text literals only.
    rw [readString] at h
    · cases h
    · intro _ _ _ hu
      exact absurd hu (by decide)
  | case4 letter t hnumber ih =>
    obtain ⟨c, hc, hread'⟩ := Option.bind_eq_some_iff.1 h'
    -- The escape `\x` is the one that text literals do not have.
    have hletter : letter ≠ 'x' := by
      rintro rfl
      cases hc
    rw [readString, hc] at h
    · exact readOn_congr ih h hread'
    · intro _ _ _ hx
      exact absurd hx hletter
  | case5 => cases h'
  | case6 _ c t hdoubled hquote hnumber hletter hlast ih =>
    rw [readString] at h
    · split at h
      · exact readOn_congr ih h h'
      · cases h
    · exact hdoubled
    · exact hquote
    · intro high low rest hescapes hc ht
      exact hletter 'x' (high :: low :: rest) hescapes hc ht
    · exact hletter
    · exact hlast
  | case7 => cases h'

theorem readString_cons (hquote : c ≠ '\'') (hslash : escapes = true → c ≠ '\\')
    (hascii : c.toNat < 128) (rest : Text) :
    readString escapes (c :: rest) = readOn c (readString escapes rest) := by
  rw [readString, if_pos hascii]
  · exact fun _ h => absurd h hquote
  · exact fun h => absurd h hquote
  · exact fun _ _ _ hescapes h => absurd h (hslash hescapes)
  · exact fun _ _ hescapes h => absurd h (hslash hescapes)
  · exact fun hescapes h => absurd h (hslash hescapes)

theorem readString_quote (escapes : Bool) (h : rest.head? ≠ some '\'') :
    readString escapes ('\'' :: rest) = some ([], rest) := by
  rw [readString]
  rintro tail rfl
  exact absurd rfl h

/-- Ordinary characters are read as they are up to the quote behind them. -/
theorem readString_ordinary (escapes : Bool) (ht : ∀ c ∈ t, isOrdinary c = true)
    (h : rest.head? ≠ some '\'') : readString escapes (t ++ '\'' :: rest) = some (t, rest) := by
  induction t with
  | nil => exact readString_quote escapes h
  | cons c t ih =>
    rw [List.forall_mem_cons] at ht
    obtain ⟨hc, ht⟩ := ht
    simp only [isOrdinary, Bool.and_eq_true, bne_iff_ne, decide_eq_true_eq] at hc
    rw [List.cons_append, readString_cons hc.1.1.1 (fun _ => hc.1.1.2) hc.2, ih ht,
      Text.readOn_some]

/-- With the setting on, the string of a byte literal is what stands between its quotes. -/
theorem readString_conforming (data : List UInt8) (h : rest.head? ≠ some '\'') :
    readString false ('\\' :: 'x' :: digits data ++ '\'' :: rest) =
      some ('\\' :: 'x' :: digits data, rest) := by
  have hdigits := readString_ordinary (t := digits data) false
    (fun c => isOrdinary_of_mem_digits) h
  rw [List.cons_append, List.cons_append, readString_cons (by decide) (by decide) (by decide),
    readString_cons (by decide) (by decide) (by decide), hdigits]
  rfl

/-- What the first stage makes of a byte literal with the setting off: one byte is taken by the
escape, and the digits of the others stay. -/
def escapedString : List UInt8 → Text
  | [] => ['x']
  | b :: data => Char.ofNat b.toNat :: digits data

theorem readString_escaped (data : List UInt8) (hne : rest ≠ []) (h : rest.head? ≠ some '\'') :
    readString true ('\\' :: 'x' :: digits data ++ '\'' :: rest) =
      some (escapedString data, rest) := by
  cases data with
  | nil =>
    obtain ⟨c, rest, rfl⟩ := List.exists_cons_of_ne_nil hne
    have hquote : Text.hexDigit? '\'' = none := rfl
    change readString true ('\\' :: 'x' :: '\'' :: c :: rest) = _
    rw [readString, hquote, readString_quote true h]
    rfl
  | cons b data =>
    have hb := b.toNat_lt
    have hdigits := readString_ordinary (t := digits data) true
      (fun c => isOrdinary_of_mem_digits) h
    have hbyte : 16 * (b.toNat / 16) + b.toNat % 16 = b.toNat := by omega
    rw [digits_cons, List.cons_append, List.cons_append, List.cons_append, List.cons_append,
      readString, hexDigit?_digitChar _ (by omega), hexDigit?_digitChar _ (by omega), hdigits]
    change readOn (Char.ofNat (16 * (b.toNat / 16) + b.toNat % 16)) _ = _
    rw [hbyte]
    rfl

end

/-! ## The second stage -/

/-- The bytes of characters that stand for one each. -/
def bytesOf (s : Text) : List UInt8 := s.map fun c => UInt8.ofNat c.toNat

theorem readEscaped_of_noSlash {s : Text} (h : ∀ c ∈ s, c ≠ '\\') :
    readEscaped s = some (bytesOf s) := by
  induction s with
  | nil => rfl
  | cons c s ih =>
    rw [List.forall_mem_cons] at h
    rw [readEscaped, ih h.2]
    · rfl
    · exact fun _ hc => absurd hc h.1
    · exact fun _ _ _ _ hc => absurd hc h.1
    · exact fun hc => absurd hc h.1

theorem readBytes_of_head {c : Char} (hc : c ≠ '\\') (s : Text) :
    readBytes (c :: s) = readEscaped (c :: s) := by
  rw [readBytes]
  exact fun _ h => absurd (List.cons.inj h).1 hc

theorem toNat_ofNat_byte (b : UInt8) : (Char.ofNat b.toNat).toNat = b.toNat := by
  have := b.toNat_lt
  rw [Char.toNat_ofNat, if_pos (.inl (by omega))]

/-- With the digits of other bytes behind it, a byte is not read as all of them. -/
theorem bytesOf_cons_digits {b : UInt8} {data : List UInt8} :
    bytesOf (Char.ofNat b.toNat :: digits data) = b :: data ↔ data = [] := by
  constructor
  · intro h
    have hlength := congrArg List.length h
    rw [bytesOf, List.length_map, List.length_cons, length_digits, List.length_cons] at hlength
    exact List.length_eq_zero_iff.1 (by omega)
  · rintro rfl
    rw [bytesOf, digits, List.flatMap_nil, List.map_singleton, toNat_ofNat_byte, UInt8.ofNat_toNat]

theorem octalByte?_digitChar {x y z : Nat} (hx : x < 16) (hy : y < 16) (hz : z < 16) :
    octalByte? (Nat.digitChar x) (Nat.digitChar y) (Nat.digitChar z) =
      if x < 4 ∧ y < 8 ∧ z < 8 then some (UInt8.ofNat (64 * x + 8 * y + z)) else none := by
  rw [octalByte?, hexDigit?_digitChar x hx, hexDigit?_digitChar y hy, hexDigit?_digitChar z hz]
  rfl

theorem digitChar_ne : ∀ k < 16, Nat.digitChar k ≠ 'x' ∧ Nat.digitChar k ≠ '\\' := by decide

/-- Behind a backslash digits are a number, so they are neither in hexadecimal nor another
backslash. -/
theorem readBytes_slash_digits (data : List UInt8) :
    readBytes ('\\' :: digits data) =
      match digits data with
      | a :: b :: c :: rest => do
        let byte ← octalByte? a b c
        (readEscaped rest).map (byte :: ·)
      | _ => none := by
  cases data with
  | nil => rfl
  | cons b data =>
    have hb := b.toNat_lt
    obtain ⟨hletter, hslash⟩ := digitChar_ne (b.toNat / 16) (by omega)
    rw [digits_cons, readBytes]
    · cases data with
      | nil =>
        rw [digits, List.flatMap_nil, readEscaped]
        · exact fun _ heq => absurd (List.cons.inj heq).1 hslash
        · exact fun _ _ _ _ heq => by simp at heq
      | cons m data =>
        rw [digits_cons, readEscaped]
        exact fun heq => absurd heq hslash
    · exact fun _ heq => absurd (List.cons.inj (List.cons.inj heq).2).1 hletter

/-- Digits behind a backslash are the number of no backslash: its first digit would be a one,
so the second byte would be a control character, but what is left of it is a digit. -/
theorem readBytes_slash_ne (data : List UInt8) :
    readBytes ('\\' :: digits data) ≠ some (0x5C :: data) := by
  intro h
  rw [readBytes_slash_digits] at h
  match data, h with
  | [], h => exact absurd h (by simp [digits])
  | [b], h =>
    rw [digits_cons] at h
    exact absurd h (by simp [digits])
  | b :: m :: data, h =>
    have hb := b.toNat_lt
    have hm := m.toNat_lt
    simp only [digits_cons] at h
    rw [octalByte?_digitChar (by omega) (by omega) (by omega)] at h
    split at h
    · rename_i hoctal
      have hslash : ∀ c ∈ Nat.digitChar (m.toNat % 16) :: digits data, c ≠ '\\' := by
        rw [List.forall_mem_cons]
        refine ⟨(digitChar_ne _ (by omega)).2, fun c hc => ?_⟩
        obtain ⟨k, hk, rfl⟩ := mem_digits hc
        exact (digitChar_ne k hk).2
      rw [Option.bind_eq_bind, Option.bind_some, readEscaped_of_noSlash hslash, Option.map_some,
        Option.some.injEq, List.cons.injEq, bytesOf, List.map_cons, List.cons.injEq] at h
      obtain ⟨hbyte, hdigit, -⟩ := h
      have hnumber : 64 * (b.toNat / 16) + 8 * (b.toNat % 16) + m.toNat / 16 = 92 := by
        have := congrArg UInt8.toNat hbyte
        rw [UInt8.toNat_ofNat'] at this
        change _ = 92 at this
        omega
      have hsecond : 48 ≤ b.toNat := by
        have hrange := toNat_digitChar (m.toNat % 16) (by omega)
        have := congrArg UInt8.toNat hdigit
        rw [UInt8.toNat_ofNat'] at this
        omega
      omega
    · simp at h

/-! ## Both stages -/

section

variable {valid : Text → Bool} {data : List UInt8} {rest : Text}

/-- The literal of bytes, with the quote behind its body in front of all that follows. -/
theorem quote_bytes_append (data : List UInt8) (rest : Text) :
    (Value.bytes data).quote ++ rest =
      '\'' :: ('\\' :: 'x' :: digits data ++ '\'' :: (lit "::bytea" ++ rest)) := by
  simp [Value.quote, Value.quoteBytes, Value.apostrophes, digits, lit]

theorem cast_type (valid : Text → Bool) (s rest : Text) :
    cast valid s (lit "::bytea" ++ rest) = (denote valid s).map (·, rest) := by
  have hahead : (lit "::bytea").isPrefixOf? (lit "::bytea" ++ rest) = some rest :=
    List.isPrefixOf?_eq_some_iff_append_eq.2 rfl
  rw [cast, hahead, Option.bind_some]

theorem accepts_of_ascii {s : Text} (h : ∀ c ∈ s, c ≠ '\x00' ∧ c.toNat < 128) :
    accepts valid s = true := by
  have hnul : s.contains '\x00' = false := by
    rw [Bool.eq_false_iff, ne_eq, List.contains_iff_mem]
    exact fun hmem => (h _ hmem).1 rfl
  have hascii : s.all (fun c => c.toNat < 128) = true := by
    rw [List.all_eq_true]
    exact fun c hmem => by simpa using (h c hmem).2
  rw [accepts, hnul, hascii]
  rfl

theorem accepts_hexadecimal (data : List UInt8) :
    accepts valid ('\\' :: 'x' :: digits data) = true := by
  refine accepts_of_ascii (List.forall_mem_cons.2 ⟨by decide, List.forall_mem_cons.2
    ⟨by decide, fun c hc => ?_⟩⟩)
  have hordinary := isOrdinary_of_mem_digits hc
  simp only [isOrdinary, Bool.and_eq_true, bne_iff_ne, decide_eq_true_eq] at hordinary
  exact ⟨hordinary.1.2, hordinary.2⟩

theorem ofNat_byte_eq_iff {b k : UInt8} : Char.ofNat b.toNat = Char.ofNat k.toNat ↔ b = k := by
  constructor
  · intro h
    have hnat := congrArg Char.toNat h
    rw [toNat_ofNat_byte, toNat_ofNat_byte] at hnat
    exact UInt8.toNat_inj.1 hnat
  · rintro rfl
    rfl

theorem accepts_byte {b : UInt8} :
    accepts valid [Char.ofNat b.toNat] = true ↔
      b ≠ 0 ∧ (b < 128 ∨ valid [Char.ofNat b.toNat] = true) := by
  have hnul : Char.ofNat b.toNat ≠ '\x00' ↔ b ≠ 0 := not_congr (ofNat_byte_eq_iff (k := 0))
  have hascii : (Char.ofNat b.toNat).toNat < 128 ↔ b < 128 := by
    rw [toNat_ofNat_byte, UInt8.lt_iff_toNat_lt]
    rfl
  rw [← hnul, ← hascii, accepts]
  generalize Char.ofNat b.toNat = c
  simp [ne_comm]

/-- With the setting on the literal denotes its bytes. -/
theorem read_conforming (valid : Text → Bool) (data : List UInt8) (rest : Text) :
    read valid true ((Value.bytes data).quote ++ rest) = some (data, rest) := by
  have hread : readBytes ('\\' :: 'x' :: digits data) = some data := Value.readHexPairs_flatMap data
  rw [quote_bytes_append, read, Bool.not_true, readString_conforming data (by simp [lit]),
    Option.bind_some]
  change cast valid _ (lit "::bytea" ++ rest) = _
  rw [cast_type, denote, if_pos (accepts_hexadecimal data), hread, Option.map_some]

/-- With the setting off it denotes what the second stage makes of one byte and digits. -/
theorem read_escaped (valid : Text → Bool) (data : List UInt8) (rest : Text) :
    read valid false ((Value.bytes data).quote ++ rest) =
      (denote valid (escapedString data)).map (·, rest) := by
  rw [quote_bytes_append, read, Bool.not_false,
    readString_escaped data (by simp [lit]) (by simp [lit]), Option.bind_some]
  exact cast_type valid _ rest

end

/-- Whether bytes are a single one that stands for itself in a string: neither NUL nor a
backslash, and one of ASCII or valid by itself in the encoding of the server. -/
def IsOnePlainByte (valid : Text → Bool) (data : List UInt8) : Prop :=
  ∃ b, data = [b] ∧ b ≠ 0 ∧ b ≠ 0x5C ∧ (b < 128 ∨ valid [Char.ofNat b.toNat] = true)

/-- A byte that is no backslash is read as it is, and so are the digits behind it. -/
theorem readBytes_escapedString {b : UInt8} (hslash : b ≠ 0x5C) (data : List UInt8) :
    readBytes (escapedString (b :: data)) = some (bytesOf (Char.ofNat b.toNat :: digits data)) := by
  have hb : Char.ofNat b.toNat ≠ '\\' := mt (ofNat_byte_eq_iff (k := 0x5C)).1 hslash
  rw [escapedString, readBytes_of_head hb, readEscaped_of_noSlash]
  rw [List.forall_mem_cons]
  refine ⟨hb, fun c hc => ?_⟩
  obtain ⟨k, hk, rfl⟩ := mem_digits hc
  exact (digitChar_ne k hk).2

theorem denote_escapedString_iff (valid : Text → Bool) (data : List UInt8) :
    denote valid (escapedString data) = some data ↔ IsOnePlainByte valid data := by
  rw [denote, Option.ite_none_right_eq_some]
  constructor
  · rintro ⟨haccepts, hread⟩
    cases data with
    | nil => exact absurd hread (by decide)
    | cons b data =>
      have hslash : b ≠ 0x5C := by
        rintro rfl
        exact readBytes_slash_ne data hread
      rw [readBytes_escapedString hslash, Option.some.injEq, bytesOf_cons_digits] at hread
      subst hread
      obtain ⟨hnul, hvalid⟩ := accepts_byte.1 haccepts
      exact ⟨b, rfl, hnul, hslash, hvalid⟩
  · rintro ⟨b, rfl, hnul, hslash, hvalid⟩
    refine ⟨accepts_byte.2 ⟨hnul, hvalid⟩, ?_⟩
    rw [readBytes_escapedString hslash, bytesOf_cons_digits.2 rfl]

/-- On its own and in every list, the literal of bytes denotes them with the setting on.  With the
setting off it does so exactly for one byte that stands for itself in a string. -/
theorem bytes_read_same_iff (valid : Text → Bool) (data : List UInt8) (p : Value.Position) :
    (p.fill (.bytes data)).quote = p.front ++ ((Value.bytes data).quote ++ p.back) ∧
    read valid true ((Value.bytes data).quote ++ p.back) = some (data, p.back) ∧
    (read valid false ((Value.bytes data).quote ++ p.back) = some (data, p.back) ↔
      IsOnePlainByte valid data) := by
  refine ⟨?_, read_conforming valid data p.back, ?_⟩
  · rw [Value.Position.quote_fill rfl, List.append_assoc]
  · rw [read_escaped, ← denote_escapedString_iff, Option.map_eq_some_iff]
    simp

/-- With the setting off the second of two bytes is stored as its digits, no bytes at all are
stored as a letter, and a zero byte is refused, even by a server that takes every encoding. -/
theorem bytes_read_differ :
    read (fun _ => true) false (Value.bytes [0x0a, 0xff]).quote = some ([0x0a, 0x66, 0x66], []) ∧
    read (fun _ => true) false (Value.bytes []).quote = some ([0x78], []) ∧
    read (fun _ => true) false (Value.bytes [0]).quote = none ∧
    read (fun _ => true) true (Value.bytes [0x0a, 0xff]).quote = some ([0x0a, 0xff], []) :=
  ⟨rfl, rfl, rfl, rfl⟩

end ByteLiteral

end SqlCompose
