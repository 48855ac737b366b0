import SqlCompose.Text.Basic

/-!
# Blank and control characters

Names and clause texts are read without their outer blanks, where a blank is any
character with the Unicode property White_Space.  `trim` removes them; its main facts
are that a trimmed text is its own trim and that trimming leaves nothing exactly when
every character is blank.
-/

namespace SqlCompose

/-- The 25 characters with the Unicode property White_Space: tab to carriage return,
space, next line, no-break space, ogham space mark, the spaces U+2000 to U+200A, line and
paragraph separator, narrow no-break space, medium mathematical space and ideographic
space.  The zero width space is not among them. -/
def isBlank (c : Char) : Bool :=
  let n := c.toNat
  (0x09 ≤ n && n ≤ 0x0D) || n == 0x20 || n == 0x85 || n == 0xA0 || n == 0x1680 ||
    (0x2000 ≤ n && n ≤ 0x200A) || n == 0x2028 || n == 0x2029 || n == 0x202F ||
    n == 0x205F || n == 0x3000

/-- The characters of general category Cc: U+0000 to U+001F and U+007F to U+009F. -/
def isControl (c : Char) : Bool :=
  c.toNat < 0x20 || (0x7F ≤ c.toNat && c.toNat < 0xA0)

namespace Text

/-- Text without its leading blanks. -/
def trimStart (t : Text) : Text := t.dropWhile isBlank

/-- Text without its trailing blanks. -/
def trimEnd (t : Text) : Text := (t.reverse.dropWhile isBlank).reverse

/-- Text without its outer blanks. -/
def trim (t : Text) : Text := trimEnd (trimStart t)

/-- Whether a text holds nothing but blanks. -/
def blank (t : Text) : Bool := (trim t).isEmpty

theorem dropWhile_eq_nil_iff_all (p : Char → Bool) (t : Text) :
    t.dropWhile p = [] ↔ t.all p = true := by
  induction t with
  | nil => simp
  | cons c r ih => by_cases h : p c <;> simp [h, ih]

theorem all_dropWhile_self (p : Char → Bool) (t : Text) :
    (t.dropWhile p).all p = t.all p := by
  induction t with
  | nil => rfl
  | cons c r ih => by_cases h : p c <;> simp [h, ih]

/-- Trimming leaves nothing exactly when every character is blank. -/
theorem trim_eq_nil_iff (t : Text) : trim t = [] ↔ t.all isBlank = true := by
  rw [trim, trimEnd, List.reverse_eq_nil_iff, dropWhile_eq_nil_iff_all, List.all_reverse,
    trimStart, all_dropWhile_self]

theorem blank_iff (t : Text) : blank t = true ↔ t.all isBlank = true := by
  rw [blank, List.isEmpty_iff, trim_eq_nil_iff]

end Text

end SqlCompose
